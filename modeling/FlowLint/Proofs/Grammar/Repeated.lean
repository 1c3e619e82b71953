import FlowLint.Proofs.Grammar.Bound
import FlowLint.Proofs.Grammar.Stays

namespace FlowLint
set_option autoImplicit true

/-- A closing parenthesis, or the end of the file: no expression goes on with these. -/
def TokenKind.isClosing (kind : TokenKind) : Bool :=
  kind == .symbol .rightParen || kind == .endOfFile

/-- What may stand behind the tokens that were read in place of what stands there. -/
inductive Tolerance
  /-- The same token. -/
  | same
  /-- The same token, or one that no expression goes on with. -/
  | closing
  | any

namespace Tolerance

def Allows : Tolerance → Token → Token → Prop
  | same, old, new => new = old
  | closing, old, new => new = old ∨ new.kind.isClosing = true
  | any, _, _ => True

def covers : Tolerance → Tolerance → Bool
  | any, _ | _, same | closing, closing => true
  | _, _ => false

variable {t t' : Tolerance} {old new : Token}

theorem Allows.rfl : t.Allows old old := by
  cases t with
  | same => exact Eq.refl _
  | closing => exact .inl (Eq.refl _)
  | any => trivial

theorem Allows.mono (h : t.Allows old new) (ht : t'.covers t = true) : t'.Allows old new := by
  cases t' with
  | any => trivial
  | closing =>
    cases t with
    | same => exact .inl h
    | closing => exact h
    | any => cases ht
  | same =>
    cases t with
    | same => exact h
    | closing => cases ht
    | any => cases ht

theorem covers_self : t.covers t = true := by
  cases t <;> rfl

theorem any_covers : any.covers t = true := by
  cases t <;> rfl

end Tolerance

namespace Cursor

/-- The cursor in front of some tokens that another one stands behind. -/
def behind (read : List Token) (stop : Nat) (d : Cursor) : Cursor :=
  ⟨read ++ d.ahead, d.endOfFile, stop⟩

/-- The tokens ahead are the last ones of a list, and none of them is the end of the file. -/
structure Rests (others : List Token) (c : Cursor) : Prop where
  closed : c.Closed
  suffix : c.ahead <:+ others

variable {others read : List Token} {c d e : Cursor} {stop : Nat}

theorem behind_append (left right : List Token) (middle : Nat) :
    e.behind (left ++ right) stop = (e.behind right middle).behind left stop := by
  simp [behind]

theorem behind_nil (h : e.stop = stop) : e.behind [] stop = e := by
  rw [behind, ← h]
  rfl

theorem current_behind (h : read ≠ []) (d e : Cursor) (stop : Nat) :
    (e.behind read stop).current = (d.behind read stop).current := by
  cases read with
  | nil => exact absurd rfl h
  | cons token read => rfl

theorem Rests.of_behind (h : (d.behind read stop).Rests others) : d.Rests others :=
  ⟨⟨h.closed.endOfFile, h.closed.text, fun token ht =>
    h.closed.ahead token (List.mem_append_right _ ht)⟩,
    List.IsSuffix.trans (List.suffix_append read d.ahead) h.suffix⟩

/-- In front of what another cursor has ahead there may be the same tokens. -/
theorem Closed.behind (h : (d.behind read stop).Closed) (he : e.Closed) :
    (e.behind read stop).Closed := by
  refine ⟨he.endOfFile, he.text, fun token ht => ?_⟩
  rcases List.mem_append.1 ht with ht | ht
  · exact h.ahead token (List.mem_append_left _ ht)
  · exact he.ahead token ht

end Cursor

/-- Where the last of some tokens ends; nothing is read at the start. -/
def Token.stopOf (read : List Token) (start : Nat) : Nat :=
  (read.getLast?.map (·.range.stop)).getD start

theorem Token.stopOf_cons (token : Token) (read : List Token) (start : Nat) :
    stopOf (token :: read) start = stopOf read token.range.stop := by
  cases read with
  | nil => rfl
  | cons next read => simp [stopOf, List.getLast?_cons]

theorem Token.stopOf_append (left right : List Token) (start : Nat) :
    stopOf (left ++ right) start = stopOf right (stopOf left start) := by
  induction left generalizing start with
  | nil => rfl
  | cons token left ih => rw [List.cons_append, stopOf_cons, ih, stopOf_cons]

namespace TokenReader

variable {α β : Type} {others read left right : List Token} {c d e m : Cursor} {t t' : Tolerance}

/-- Across some tokens from one cursor to another, a reader goes on as another one, whatever stands
behind them that is tolerated. -/
structure Resumes (t : Tolerance) (x y : TokenReader α) (c : Cursor) (read : List Token)
    (d : Cursor) : Prop where
  cursor : c = d.behind read c.stop
  stop : d.stop = Token.stopOf read c.stop
  resume : ∀ e, e.Closed → e.stop = d.stop → t.Allows d.current e.current →
    x (e.behind read c.stop) = y e

/-- Across some tokens a reader reads a result, whatever stands behind them that is tolerated. -/
abbrev Again (t : Tolerance) (x : TokenReader α) (c : Cursor) (read : List Token) (a : α)
    (d : Cursor) : Prop :=
  Resumes t x (pure a) c read d

/-- What a reader reads from a cursor, from `k` tokens or more, satisfies a condition, and is read
again from these tokens whatever stands behind them that is tolerated. -/
def Repeats (t : Tolerance) (k : Fin 2) (P : α → Prop) (x : TokenReader α) (c : Cursor) : Prop :=
  ∀ a d, x c = .ok (a, d) → ∃ read, (k : Nat) ≤ read.length ∧ P a ∧ Again t x c read a d

namespace Resumes

variable {x y z : TokenReader α}

protected theorem refl : Resumes t x x c [] c where
  cursor := (Cursor.behind_nil rfl).symm
  stop := rfl
  resume e _ hs _ := by rw [Cursor.behind_nil hs]

theorem rests (h : Resumes t x y c read d) (hc : c.Rests others) : d.Rests others := by
  rw [h.cursor] at hc
  exact hc.of_behind

theorem length (h : Resumes t x y c read d) : c.ahead.length = read.length + d.ahead.length := by
  rw [h.cursor]
  exact List.length_append

theorem closed (h : Resumes t x y c read d) (hc : c.Closed) (he : e.Closed) :
    (e.behind read c.stop).Closed := by
  rw [h.cursor] at hc
  exact hc.behind he

theorem current (h : Resumes t x y c read d) (hr : read ≠ []) :
    (e.behind read c.stop).current = c.current :=
  (Cursor.current_behind hr d e c.stop).trans (congrArg Cursor.current h.cursor.symm)

theorem current_of_allows (h : Resumes t' x y c read d) (ha : t.Allows d.current e.current)
    (hs : e.stop = d.stop) : t.Allows c.current (e.behind read c.stop).current := by
  by_cases hr : read = []
  · subst hr
    have hstop : d.stop = c.stop := h.stop
    have hcursor : c = d := by rw [h.cursor, Cursor.behind_nil hstop]
    rw [Cursor.behind_nil (hs.trans hstop), hcursor]
    exact ha
  · rw [h.current hr]
    exact .rfl

theorem head (h : Resumes t x y c read d) {token : Token} (hm : token ∈ read.head?) :
    token = c.current := by
  cases read with
  | nil => cases hm
  | cons first read =>
    rw [h.cursor]
    exact (Option.some.inj hm).symm

theorem congr_left {x' : TokenReader α} (h : Resumes t x y c read d) (hc : c.Closed)
    (hr : read ≠ []) (hx : ∀ c' : Cursor, c'.Closed → c'.current = c.current → x' c' = x c') :
    Resumes t x' y c read d :=
  ⟨h.cursor, h.stop, fun e he hs ha =>
    (hx _ (h.closed hc he) (h.current hr)).trans (h.resume e he hs ha)⟩

theorem congr_right {y' : TokenReader α} (h : Resumes t x y c read d)
    (hy : ∀ e : Cursor, e.Closed → e.stop = d.stop → y e = y' e) : Resumes t x y' c read d :=
  ⟨h.cursor, h.stop, fun e he hs ha => (h.resume e he hs ha).trans (hy e he hs)⟩

theorem weaken (h : Resumes t x y c read d) (ht : t.covers t' = true) :
    Resumes t' x y c read d :=
  ⟨h.cursor, h.stop, fun e he hs ha => h.resume e he hs (ha.mono ht)⟩

protected theorem trans (hc : c.Closed) (h : Resumes t' x y c left m) (h' : Resumes t y z m right d)
    (ht : t'.covers t = true ∨ right ≠ []) : Resumes t x z c (left ++ right) d where
  cursor := by
    rw [Cursor.behind_append left right m.stop, ← h'.cursor]
    exact h.cursor
  stop := by
    rw [Token.stopOf_append, ← h.stop]
    exact h'.stop
  resume e he hs ha := by
    have hm : m.Closed := (h.rests (⟨hc, List.suffix_rfl⟩ : c.Rests c.ahead)).closed
    have hallows : t'.Allows m.current (e.behind right m.stop).current := by
      rcases ht with ht | ht
      · exact (h'.current_of_allows ha hs).mono ht
      · rw [h'.current ht]
        exact .rfl
    rw [Cursor.behind_append left right m.stop, h.resume _ (h'.closed hm he) rfl hallows]
    exact h'.resume e he hs ha

end Resumes

theorem Again.reads {x : TokenReader α} (h : Again t x c read a d) (hd : d.Closed) :
    x c = .ok (a, d) := by
  rw [h.cursor]
  exact h.resume d hd rfl .rfl

theorem Again.bind {x : TokenReader α} (h : Again t x c read a d) (f : α → TokenReader β) :
    Resumes t (x >>= f) (f a) c read d where
  cursor := h.cursor
  stop := h.stop
  resume e he hs ha := by
    change (x _ >>= fun (a, d) => f a d) = _
    rw [h.resume e he hs ha]
    rfl

namespace Repeats

variable {x y : TokenReader α} {f : α → TokenReader β} {P : α → Prop} {Q : β → Prop}
  {kind : TokenKind} {i j k : Fin 2}

protected theorem pure {a : α} (h : P a) : Repeats t 0 P (pure a : TokenReader α) c := by
  intro b d he
  cases he
  exact ⟨[], Nat.zero_le _, h, .refl⟩

protected theorem throw (error : ParseError) :
    Repeats t k P (throw error : TokenReader α) c :=
  nofun

protected theorem unexpected (expected : Expected) :
    Repeats t k P (unexpected expected : TokenReader α) c :=
  nofun

theorem mono {P' : α → Prop} (h : Repeats t k P x c) (hp : ∀ a, P a → P' a) :
    Repeats t k P' x c := by
  intro a d he
  obtain ⟨read, hk, ha, hagain⟩ := h a d he
  exact ⟨read, hk, hp a ha, hagain⟩

theorem gain {P' : α → Prop} (h : Repeats t 1 P x c)
    (hp : ∀ a d read, read ≠ [] → P a → Again t x c read a d → P' a) : Repeats t 1 P' x c := by
  intro a d he
  obtain ⟨read, hk, ha, hagain⟩ := h a d he
  exact ⟨read, hk, hp a d read (List.length_pos_iff.1 hk) ha hagain, hagain⟩

theorem weaken (h : Repeats t 1 P x c) (ht : t.covers t' = true) : Repeats t' k P x c := by
  intro a d he
  obtain ⟨read, hk, ha, hagain⟩ := h a d he
  exact ⟨read, Nat.le_trans (Nat.le_of_lt_succ k.isLt) hk, ha, hagain.weaken ht⟩

theorem relax (h : Repeats t 1 P x c) : Repeats t k P x c :=
  h.weaken Tolerance.covers_self

theorem bind_of (hc : c.Rests others) (h : Repeats t' i P x c)
    (hf : ∀ a d read, d.Rests others → d.ahead.length + i ≤ c.ahead.length → P a →
      (i : Nat) ≤ read.length → Again t' x c read a d → Repeats t j Q (f a) d)
    (ht : t'.covers t = true ∨ j = 1) (hk : k ≤ i ∨ j = 1) : Repeats t k Q (x >>= f) c := by
  intro b d he
  obtain ⟨⟨a, m⟩, hx, hfa⟩ := bind_eq_ok.1 he
  obtain ⟨left, hi, ha, hagain⟩ := h a m hx
  have hlength := hagain.length
  obtain ⟨right, hj, hb, hagain'⟩ :=
    hf a m left (hagain.rests hc) (by omega) ha hi hagain b d hfa
  refine ⟨left ++ right, ?_, hb, ?_⟩
  · rw [List.length_append]
    omega
  · refine (hagain.bind f).trans hc.closed hagain' (ht.imp_right ?_)
    rintro rfl rfl
    exact Nat.not_succ_le_zero _ hj

theorem bind_again (hc : c.Rests others) (h : Repeats t' 1 P x c) (ht : t'.covers t = true)
    (hf : ∀ a d read, d.Rests others → d.ahead.length < c.ahead.length → read ≠ [] → P a →
      Again t' x c read a d → Repeats t 0 Q (f a) d) : Repeats t k Q (x >>= f) c :=
  bind_of hc h (fun a d read hd hlt ha hr hagain =>
    hf a d read hd hlt (List.length_pos_iff.1 hr) ha hagain) (.inl ht) (.inl (by omega))

protected theorem bind (hc : c.Rests others) (h : Repeats t' 1 P x c) (ht : t'.covers t = true)
    (hf : ∀ a d, d.Rests others → d.ahead.length < c.ahead.length → P a →
      Repeats t 0 Q (f a) d) : Repeats t k Q (x >>= f) c :=
  bind_again hc h ht fun a d _ hd hlt _ ha _ => hf a d hd hlt ha

theorem andThen (hc : c.Rests others) (h : Repeats t' i P x c) (ht : t'.covers t = true)
    (hf : ∀ a d, d.Rests others → d.ahead.length ≤ c.ahead.length → P a →
      Repeats t 0 Q (f a) d) : Repeats t 0 Q (x >>= f) c :=
  bind_of hc h (fun a d _ hd hle ha _ _ => hf a d hd (by omega) ha) (.inl ht) (.inl (by omega))

/-- In front of some tokens that are read: whatever stands behind them is tolerated before. -/
theorem before (hc : c.Rests others) (h : Repeats t' i P x c)
    (hf : ∀ a d, d.Rests others → d.ahead.length + i ≤ c.ahead.length → P a →
      Repeats t 1 Q (f a) d) : Repeats t k Q (x >>= f) c :=
  bind_of hc h (fun a d _ hd hle ha _ _ => hf a d hd hle ha) (.inr rfl) (.inr rfl)

protected theorem map (hc : c.Rests others) {f : α → β} (h : Repeats t k P x c)
    (hf : ∀ a, P a → Q (f a)) : Repeats t k Q (f <$> x) c := by
  rw [map_eq_pure_bind]
  exact bind_of hc h (fun a _ _ _ _ ha _ _ => .pure (hf a ha)) (.inl Tolerance.covers_self)
    (.inl (by omega))

protected theorem ite {p : Prop} [Decidable p] (hx : p → Repeats t k P x c)
    (hy : ¬ p → Repeats t k P y c) : Repeats t k P (if p then x else y) c := by
  split
  · next hp => exact hx hp
  · next hp => exact hy hp

theorem congr (hc : c.Closed) (h : Repeats t k P y c)
    (he : ∀ c' : Cursor, c'.Closed → ((0 : Fin 2) < k → c'.current = c.current) → x c' = y c') :
    Repeats t k P x c := by
  intro a d hx
  rw [he c hc fun _ => rfl] at hx
  obtain ⟨read, hk, ha, hagain⟩ := h a d hx
  refine ⟨read, hk, ha, hagain.cursor, hagain.stop, fun e hclosed hs hallows => ?_⟩
  rw [he _ (hagain.closed hc hclosed) fun hpos => hagain.current ?_]
  · exact hagain.resume e hclosed hs hallows
  · rintro rfl
    exact absurd hk (Nat.not_le_of_lt hpos)

theorem peek_of {f : Token → TokenReader β} (h : Repeats t k Q (f c.current) c)
    (hf : k = 1 ∨ t = .same) : Repeats t k Q (peek >>= f) c := by
  intro b d he
  obtain ⟨read, hk, hb, hagain⟩ := h b d he
  refine ⟨read, hk, hb, hagain.cursor, hagain.stop, fun e he hs hallows => ?_⟩
  have hcurrent : (e.behind read c.stop).current = c.current := by
    rcases hf with rfl | rfl
    · exact hagain.current (List.length_pos_iff.1 hk)
    · exact hagain.current_of_allows hallows hs
  change f (e.behind read c.stop).current _ = _
  rw [hcurrent]
  exact hagain.resume e he hs hallows

theorem peek_closing {f : Token → TokenReader β} {b : β}
    (hf : ∀ token : Token, token.kind.isClosing = true → f token = pure b)
    (h : Repeats .closing 1 Q (f c.current) c ∨ f c.current = pure b ∧ Q b) :
    Repeats .closing 0 Q (peek >>= f) c := by
  rcases h with h | ⟨hpure, hb⟩
  · exact (peek_of h (.inl rfl)).relax
  · intro b' d he
    have he : f c.current c = .ok (b', d) := he
    rw [hpure] at he
    cases he
    refine ⟨[], Nat.zero_le _, hb, (Cursor.behind_nil rfl).symm, rfl, fun e _ hs hallows => ?_⟩
    rw [Cursor.behind_nil hs]
    change f e.current e = _
    rcases hallows with hsame | hkind
    · rw [hsame, hpure]
    · rw [hf _ hkind]

theorem isAt_of {f : Bool → TokenReader β} (h : Repeats t k Q (f (c.current.kind == kind)) c)
    (hf : k = 1 ∨ t = .same) : Repeats t k Q (isAt kind >>= f) c :=
  peek_of (f := fun token => f (token.kind == kind)) h hf

theorem isAt_closing {f : Bool → TokenReader β} (hkind : kind.isClosing = false)
    (hx : c.current.kind = kind → Repeats .closing 1 Q (f true) c)
    (hy : c.current.kind ≠ kind → Repeats .closing k Q (f false) c) :
    Repeats .closing k Q (isAt kind >>= f) c := by
  by_cases hat : c.current.kind = kind
  · have h := hx hat
    rw [← beq_iff_eq.2 hat] at h
    exact (isAt_of h (.inl rfl)).relax
  · intro b d he
    have he : f (c.current.kind == kind) c = .ok (b, d) := he
    rw [beq_false_of_ne hat] at he
    obtain ⟨read, hk, hb, hagain⟩ := hy hat b d he
    refine ⟨read, hk, hb, hagain.cursor, hagain.stop, fun e he hs hallows => ?_⟩
    have hnot : (e.behind read c.stop).current.kind ≠ kind := by
      rcases hagain.current_of_allows hallows hs with hsame | hclosing
      · rw [hsame]
        exact hat
      · rintro rfl
        exact Bool.false_ne_true (hkind.symm.trans hclosing)
    change f ((e.behind read c.stop).current.kind == kind) _ = _
    rw [beq_false_of_ne hnot]
    exact hagain.resume e he hs hallows

theorem nextKind (hx : Repeats .same 1 P x c) (hy : Repeats .same 1 P y c) :
    Repeats .same 1 P (get >>= fun cursor => if cursor.nextKind = kind then x else y) c := by
  have h : Repeats .same 1 P (if c.nextKind = kind then x else y) c := .ite (fun _ => hx) fun _ => hy
  intro a d he
  obtain ⟨read, hk, ha, hagain⟩ := h a d he
  refine ⟨read, hk, ha, hagain.cursor, hagain.stop, fun e he hs hallows => ?_⟩
  have hnext : (e.behind read c.stop).nextKind = c.nextKind := by
    rw [hagain.cursor]
    rcases read with _ | ⟨token, _ | ⟨next, read⟩⟩
    · exact absurd hk (Nat.not_succ_le_zero _)
    · exact congrArg Token.kind hallows
    · rfl
  change (if (e.behind read c.stop).nextKind = kind then x else y) _ = _
  rw [hnext]
  exact hagain.resume e he hs hallows

protected theorem rangeFrom {f : Range → TokenReader β}
    (h : Repeats t k Q (f ⟨start, c.stop⟩) c) : Repeats t k Q (rangeFrom start >>= f) c := by
  intro b d he
  obtain ⟨read, hk, hb, hagain⟩ := h b d he
  exact ⟨read, hk, hb, hagain.cursor, hagain.stop, hagain.resume⟩

protected theorem bump {f : Token → TokenReader β} (hc : c.Rests others)
    (hk : c.current.kind ≠ .endOfFile)
    (h : ∀ token d, d.Rests others → d.ahead.length < c.ahead.length → Repeats t 0 Q (f token) d) :
    Repeats t k Q (bump >>= f) c := by
  have hp := hc.closed.passes hk
  have hbump : Repeats .any 1 (fun _ => True) bump c := by
    rintro token d he
    cases he
    refine ⟨[c.current], Nat.le_refl _, trivial, ?_, hp.stop, fun e _ hs _ => ?_⟩
    · obtain ⟨ahead, endOfFile, stop⟩ := c
      rw [Cursor.behind, List.singleton_append, ← hp.ahead, hp.endOfFile]
    · have hstop : e.stop = c.current.range.stop := hs.trans hp.stop
      obtain ⟨ahead, endOfFile, stop⟩ := e
      cases hstop
      rfl
  exact .bind hc hbump Tolerance.any_covers fun token d hd hlt _ => h token d hd hlt

theorem eat_of {f : Bool → TokenReader β} (hc : c.Rests others) (hkind : kind ≠ .endOfFile)
    (hx : ∀ d, d.Rests others → d.ahead.length < c.ahead.length → Repeats t 0 Q (f true) d)
    (hy : Repeats t k Q (f false) c) (hf : k = 1 ∨ t = .same) :
    Repeats t k Q (eat kind >>= f) c := by
  rw [Stays.eat_bind]
  refine isAt_of (.ite (fun hk => ?_) fun _ => hy) hf
  exact .bump hc (beq_iff_eq.1 hk ▸ hkind) fun _ d hd hlt => hx d hd hlt

theorem eat_closing {f : Bool → TokenReader β} (hc : c.Rests others)
    (hkind : kind.isClosing = false)
    (hx : ∀ d, d.Rests others → d.ahead.length < c.ahead.length → Repeats .closing 0 Q (f true) d)
    (hy : c.current.kind ≠ kind → Repeats .closing k Q (f false) c) :
    Repeats .closing k Q (eat kind >>= f) c := by
  rw [Stays.eat_bind]
  refine isAt_closing hkind (fun hk => ?_) hy
  exact .bump hc (by rw [hk]; rintro rfl; cases hkind) fun _ d hd hlt => hx d hd hlt

theorem expect {expected : Expected} (hc : c.Rests others) (hkind : kind ≠ .endOfFile) :
    Repeats .any 1 (fun _ => True) (TokenReader.expect kind expected) c := by
  refine isAt_of (.ite (fun hk => ?_) fun _ => .unexpected _) (.inl rfl)
  rw [← bind_pure TokenReader.bump]
  exact .bump hc (beq_iff_eq.1 hk ▸ hkind) fun _ _ _ _ => .pure trivial

protected theorem symbol {s : Symbol} {f : Token → TokenReader β} (hc : c.Rests others)
    (h : ∀ token d, d.Rests others → d.ahead.length < c.ahead.length → Repeats t 0 Q (f token) d) :
    Repeats t k Q (symbol s >>= f) c :=
  .bind hc (expect hc nofun) Tolerance.any_covers fun token d hd hlt _ => h token d hd hlt

protected theorem keyword {s : Keyword} {f : Token → TokenReader β} (hc : c.Rests others)
    (h : ∀ token d, d.Rests others → d.ahead.length < c.ahead.length → Repeats t 0 Q (f token) d) :
    Repeats t k Q (keyword s >>= f) c :=
  .bind hc (expect hc nofun) Tolerance.any_covers fun token d hd hlt _ => h token d hd hlt

protected theorem identifier (hc : c.Rests others) :
    Repeats .any 1 (fun _ => True) identifier c :=
  .bind hc (expect hc nofun) rfl fun _ _ _ _ _ => .pure trivial

protected theorem semicolon {f : Unit → TokenReader β} (hc : c.Rests others)
    (h : ∀ d, d.Rests others → d.ahead.length ≤ c.ahead.length → Repeats .same 0 Q (f ()) d) :
    Repeats .same 0 Q (semicolon >>= f) c := by
  have hsemicolon : Repeats .same 0 (fun _ => True) semicolon c := by
    refine eat_of hc nofun (fun _ _ _ => .pure trivial) ?_ (.inr rfl)
    exact peek_of (.ite (fun _ => .pure trivial) fun _ => .unexpected _) (.inr rfl)
  exact .andThen hc hsemicolon rfl fun _ d hd hle _ => h d hd hle

end Repeats

end TokenReader

end FlowLint
