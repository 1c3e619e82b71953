import FlowLint.Proofs.Grammar.Phrase
import FlowLint.Proofs.Success

namespace FlowLint
set_option autoImplicit true

namespace Cursor

/-- The end of the file is behind the tokens ahead, and nowhere else; it has no text. -/
structure Closed (c : Cursor) : Prop where
  endOfFile : c.endOfFile.kind = .endOfFile
  text : c.endOfFile.text = ""
  ahead : ∀ token ∈ c.ahead, token.kind ≠ .endOfFile

variable {c d : Cursor} {token : Token}

theorem Passes.current (h : c.Passes token d) : c.current = token := by
  rw [Cursor.current, h.ahead]
  rfl

theorem PassesKind.current (h : c.PassesKind kind d) : c.current.kind = kind := by
  obtain ⟨token, hp, hk⟩ := h
  rw [hp.current, hk]

theorem PassesName.current (h : c.PassesName name d) : c.current.kind = .name := by
  obtain ⟨token, hp, hk, -⟩ := h
  rw [hp.current, hk]

theorem Passes.advance (h : c.Passes token d) : c.advance = d := by
  obtain ⟨_, _, _⟩ := d
  obtain ⟨ha, rfl, rfl⟩ := h
  rw [Cursor.advance, ha]

theorem Passes.closed (h : c.Passes token d) (hc : c.Closed) : d.Closed :=
  ⟨h.endOfFile ▸ hc.endOfFile, h.endOfFile ▸ hc.text,
    fun token ht => hc.ahead token (h.ahead ▸ List.mem_cons_of_mem _ ht)⟩

theorem Closed.passes (hc : c.Closed) (hk : c.current.kind ≠ .endOfFile) :
    c.Passes c.current c.advance := by
  obtain ⟨ahead, endOfFile, stop⟩ := c
  cases ahead with
  | nil => exact absurd hc.endOfFile hk
  | cons token ahead => exact ⟨rfl, rfl, rfl⟩

theorem Closed.text_current (hc : c.Closed) (hk : c.current.kind = .endOfFile) :
    c.current.text = "" := by
  obtain ⟨ahead, endOfFile, stop⟩ := c
  cases ahead with
  | nil => exact hc.text
  | cons token ahead => exact absurd hk (hc.ahead token (List.mem_cons_self ..))

end Cursor

namespace TokenReader

variable {α β : Type} {c : Cursor}

/-- Whatever a reader yields from a cursor satisfies a condition, together with the cursor behind
it. -/
def Yields (x : TokenReader α) (c : Cursor) (Q : α → Cursor → Prop) : Prop :=
  ∀ a d, x c = .ok (a, d) → d.Closed ∧ Q a d

namespace Yields

variable {x y : TokenReader α} {P Q : α → Cursor → Prop} {R : β → Cursor → Prop}
  {kind : TokenKind}

theorem mono (h : x.Yields c P) (hq : ∀ a d, P a d → Q a d) : x.Yields c Q :=
  fun a d he => ⟨(h a d he).1, hq a d (h a d he).2⟩

protected theorem pure (hc : c.Closed) (hq : Q a c) : (pure a : TokenReader α).Yields c Q := by
  intro b d he
  cases he
  exact ⟨hc, hq⟩

protected theorem throw {error : ParseError} : (throw error : TokenReader α).Yields c Q :=
  nofun

protected theorem unexpected {expected : Expected} :
    (unexpected expected : TokenReader α).Yields c Q :=
  nofun

protected theorem bind {f : α → TokenReader β} (h : x.Yields c P)
    (hf : ∀ a d, d.Closed → P a d → (f a).Yields d R) : (x >>= f).Yields c R := by
  intro b d he
  obtain ⟨⟨a, m⟩, ha, hb⟩ := bind_eq_ok.1 he
  obtain ⟨hm, hp⟩ := h a m ha
  exact hf a m hm hp b d hb

protected theorem map {f : α → β} (h : x.Yields c P) (hr : ∀ a d, P a d → R (f a) d) :
    (f <$> x).Yields c R := by
  rw [map_eq_pure_bind]
  exact .bind h fun a d hd hp => .pure hd (hr a d hp)

theorem pure_bind {f : α → TokenReader β} (h : (f a).Yields c R) :
    ((pure a : TokenReader α) >>= f).Yields c R :=
  h

protected theorem ite {p : Prop} [Decidable p] (hx : p → x.Yields c Q) (hy : ¬ p → y.Yields c Q) :
    (if p then x else y).Yields c Q := by
  split
  · next hp => exact hx hp
  · next hp => exact hy hp

theorem ite_bind {p : Prop} [Decidable p] {f : α → TokenReader β} (hx : p → x.Yields c P)
    (hy : ¬ p → y.Yields c P) (hf : ∀ a d, d.Closed → P a d → (f a).Yields d R) :
    (if p then x >>= f else y >>= f).Yields c R :=
  .ite (fun hp => .bind (hx hp) hf) fun hp => .bind (hy hp) hf

protected theorem peek {f : Token → TokenReader β} (h : (f c.current).Yields c R) :
    (peek >>= f).Yields c R :=
  h

protected theorem get {f : Cursor → TokenReader β} (h : (f c).Yields c R) :
    (get >>= f).Yields c R :=
  h

protected theorem isAt {f : Bool → TokenReader β} (h : (f (c.current.kind == kind)).Yields c R) :
    (isAt kind >>= f).Yields c R :=
  h

protected theorem rangeFrom {f : Range → TokenReader β} (h : (f ⟨start, c.stop⟩).Yields c R) :
    (rangeFrom start >>= f).Yields c R :=
  h

protected theorem bump {f : Token → TokenReader β} (hc : c.Closed)
    (hk : c.current.kind ≠ .endOfFile)
    (h : ∀ d, d.Closed → c.Passes c.current d → (f c.current).Yields d R) :
    (bump >>= f).Yields c R :=
  have hp := hc.passes hk
  h _ (hp.closed hc) hp

theorem eat_bind {f : Bool → TokenReader β} (hc : c.Closed) (hk : kind ≠ .endOfFile)
    (hx : ∀ d, d.Closed → c.PassesKind kind d → (f true).Yields d R)
    (hy : c.current.kind ≠ kind → (f false).Yields c R) :
    (TokenReader.eat kind >>= f).Yields c R := by
  change ((if (c.current.kind == kind) = true then TokenReader.bump >>= fun _ => pure true
    else pure false) >>= f).Yields c R
  by_cases h : c.current.kind = kind
  · have hp := hc.passes (h ▸ hk)
    rw [if_pos (beq_iff_eq.2 h)]
    exact hx _ (hp.closed hc) ⟨_, hp, h⟩
  · rw [if_neg (mt beq_iff_eq.1 h)]
    exact hy h

protected theorem eat (hc : c.Closed) (hk : kind ≠ .endOfFile)
    (hx : ∀ d, d.Closed → c.PassesKind kind d → x.Yields d Q)
    (hy : c.current.kind ≠ kind → y.Yields c Q) :
    (TokenReader.eat kind >>= fun eaten => if eaten = true then x else y).Yields c Q :=
  eat_bind hc hk hx hy

theorem eat_ite_bind {f : α → TokenReader β} (hc : c.Closed) (hk : kind ≠ .endOfFile)
    (hx : ∀ d, d.Closed → c.PassesKind kind d → x.Yields d P)
    (hy : c.current.kind ≠ kind → y.Yields c P)
    (hf : ∀ a d, d.Closed → P a d → (f a).Yields d R) :
    (TokenReader.eat kind >>= fun eaten => if eaten = true then x >>= f else y >>= f).Yields c R :=
  .eat hc hk (fun d hd hp => .bind (hx d hd hp) hf) fun hn => .bind (hy hn) hf

theorem expect {expected : Expected} (hc : c.Closed) (hk : kind ≠ .endOfFile) :
    (TokenReader.expect kind expected).Yields c fun token d =>
      token = c.current ∧ c.Passes token d ∧ token.kind = kind := by
  refine .isAt (.ite (fun h => ?_) fun _ => .unexpected)
  have h := beq_iff_eq.1 h
  have hp := hc.passes (h ▸ hk)
  intro token d he
  cases he
  exact ⟨hp.closed hc, rfl, hp, h⟩

protected theorem symbol {f : Token → TokenReader β} (hc : c.Closed)
    (h : ∀ d, d.Closed → c.PassesSymbol s d → (f c.current).Yields d R) :
    (TokenReader.symbol s >>= f).Yields c R := by
  refine .bind (expect hc nofun) ?_
  rintro token d hd ⟨rfl, hp, hk⟩
  exact h d hd ⟨_, hp, hk⟩

protected theorem keyword {f : Token → TokenReader β} (hc : c.Closed)
    (h : ∀ d, d.Closed → c.PassesKeyword k d → (f c.current).Yields d R) :
    (TokenReader.keyword k >>= f).Yields c R := by
  refine .bind (expect hc nofun) ?_
  rintro token d hd ⟨rfl, hp, hk⟩
  exact h d hd ⟨_, hp, hk⟩

protected theorem identifier (hc : c.Closed) :
    TokenReader.identifier.Yields c fun name d => c.PassesName name d := by
  refine .bind (expect hc nofun) ?_
  rintro token d hd ⟨-, hp, hk⟩
  exact .pure hd ⟨token, hp, hk, rfl⟩

protected theorem semicolon {f : Unit → TokenReader β} (hc : c.Closed)
    (h : ∀ d, d.Closed → c.Ends d → (f ()).Yields d R) :
    (TokenReader.semicolon >>= f).Yields c R := by
  have hs : TokenReader.semicolon.Yields c fun _ d => c.Ends d := by
    refine .eat hc nofun (fun d hd hp => .pure hd (.semicolon hp)) fun _ => ?_
    exact .peek (.ite (fun hi => .pure hc (.implied hi)) fun _ => .unexpected)
  exact .bind hs fun _ d hd he => h d hd he

end Yields

end TokenReader

end FlowLint
