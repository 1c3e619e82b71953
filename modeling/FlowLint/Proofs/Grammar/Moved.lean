import FlowLint.Proofs.Grammar.Laid
import FlowLint.Proofs.Grammar.Reader
import FlowLint.Proofs.Tree.Relocation

namespace FlowLint
set_option autoImplicit true

def Token.relocate (f : Range → Range) (token : Token) : Token :=
  { token with range := f token.range }

def ParseError.relocate (f : Range → Range) (error : ParseError) : ParseError :=
  { error with range := f error.range }

namespace Cursor

def relocate (p : Placement) (cursor : Cursor) : Cursor :=
  ⟨cursor.ahead.map (·.relocate p.place), cursor.endOfFile.relocate p.place, p.stop cursor.stop⟩

theorem current_relocate (p : Placement) (c : Cursor) :
    (c.relocate p).current = c.current.relocate p.place := by
  obtain ⟨_ | _, _, _⟩ := c <;> rfl

theorem nextKind_relocate (p : Placement) (c : Cursor) :
    (c.relocate p).nextKind = c.nextKind := by
  obtain ⟨_ | ⟨_, _ | _⟩, _, _⟩ := c <;> rfl

theorem advance_relocate (p : Placement) (c : Cursor) :
    (c.relocate p).advance = c.advance.relocate p := by
  obtain ⟨_ | _, _, _⟩ := c <;> rfl

theorem Closed.relocate {c : Cursor} (h : c.Closed) (p : Placement) : (c.relocate p).Closed := by
  refine ⟨h.endOfFile, h.text, fun token hm => ?_⟩
  obtain ⟨token, htoken, rfl⟩ := List.mem_map.1 hm
  exact h.ahead token htoken

end Cursor

/-- A range over some tokens, or that of the end of the file behind them. -/
def Range.Marks (others : List Token) (last : Token) (range : Range) : Prop :=
  range.Spans others ∨ range = last.range

theorem Cursor.Over.marks {c : Cursor} (h : c.Over others last) :
    c.current.range.Marks others last := by
  obtain ⟨_ | ⟨token, ahead⟩, endOfFile, stop⟩ := c
  · exact .inr (congrArg Token.range h.endOfFile)
  · have hm := h.along.mem token (List.mem_cons_self ..)
    exact .inl ⟨h.along.follow.2.1, ⟨token, hm, rfl⟩, ⟨token, hm, rfl⟩⟩

namespace TokenReader

/-- From moved tokens a reader reads what another one reads, at the other places, or fails as it
does. Either stays on the tokens, and blames some of them. -/
structure Moves (p : Placement) (others : List Token) (last : Token) {α β : Type} (f : α → β)
    (x : TokenReader α) (y : TokenReader β) : Prop where
  carries : ∀ c, Cursor.Over others last c →
    Carries (·.relocate p.place) (Prod.map f (·.relocate p)) (x c) (y (c.relocate p))
  stays : ∀ c, Cursor.Over others last c → ∀ a d, x c = .ok (a, d) → d.Over others last
  marks : ∀ c, Cursor.Over others last c → ∀ error, x c = .error error →
    error.range.Marks others last

namespace Moves

variable {p : Placement} {others : List Token} {last : Token} {α β γ δ : Type} {f : α → β}
  {g : γ → δ} {x : TokenReader α} {y : TokenReader β} {k : α → TokenReader γ}
  {l : β → TokenReader δ}

protected theorem pure (h : b = f a) :
    Moves p others last f (pure a : TokenReader α) (pure b) where
  carries c _ := .ok_of_eq (by rw [h]; rfl)
  stays c hc a d he := by
    cases he
    exact hc
  marks c _ error he := by cases he

protected theorem throw {error error' : ParseError} (h : error.range.Marks others last)
    (he : error' = error.relocate p.place) :
    Moves p others last f (throw error : TokenReader α) (throw error') where
  carries c _ := by
    subst he
    exact .error error
  stays c _ a d he := by cases he
  marks c _ found hf := by
    cases hf
    exact h

theorem bind_of {P : α → Prop} (h : Moves p others last f x y)
    (hp : ∀ c, Cursor.Over others last c → ∀ a d, x c = .ok (a, d) → P a)
    (hk : ∀ a, P a → Moves p others last g (k a) (l (f a))) :
    Moves p others last g (x >>= k) (y >>= l) where
  carries c hc := by
    apply (h.carries c hc).bind_of_ok
    rintro ⟨a, d⟩ he
    exact (hk a (hp c hc a d he)).carries d (h.stays c hc a d he)
  stays c hc b e he := by
    obtain ⟨⟨a, d⟩, ha, hb⟩ := bind_eq_ok.1 he
    exact (hk a (hp c hc a d ha)).stays d (h.stays c hc a d ha) b e hb
  marks c hc error he := by
    cases hx : x c with
    | error first =>
      have hfirst : (x >>= k) c = .error first := by
        change (x c >>= fun (a, d) => k a d) = _
        rw [hx]
        rfl
      obtain rfl := Except.error.inj (hfirst.symm.trans he)
      exact h.marks c hc first hx
    | ok result =>
      obtain ⟨a, d⟩ := result
      have hrest : (x >>= k) c = k a d := by
        change (x c >>= fun (a, d) => k a d) = _
        rw [hx]
        rfl
      exact (hk a (hp c hc a d hx)).marks d (h.stays c hc a d hx) error (hrest.symm.trans he)

protected theorem bind (h : Moves p others last f x y)
    (hk : ∀ a, Moves p others last g (k a) (l (f a))) :
    Moves p others last g (x >>= k) (y >>= l) :=
  h.bind_of (P := fun _ => True) (fun _ _ _ _ _ => trivial) fun a _ => hk a

protected theorem map {i : α → γ} {j : β → δ} (h : Moves p others last f x y)
    (hg : ∀ a, j (f a) = g (i a)) : Moves p others last g (i <$> x) (j <$> y) := by
  rw [map_eq_pure_bind, map_eq_pure_bind]
  exact .bind h fun a => .pure (hg a)

protected theorem ite {c : Prop} [Decidable c] {x' : TokenReader α} {y' : TokenReader β}
    (hx : Moves p others last f x y) (hy : Moves p others last f x' y') :
    Moves p others last f (if c then x else x') (if c then y else y') := by
  split
  · exact hx
  · exact hy

theorem ite_bind {c : Prop} [Decidable c] {x' : TokenReader α} {y' : TokenReader β}
    (hx : Moves p others last f x y) (hy : Moves p others last f x' y')
    (hk : ∀ a, Moves p others last g (k a) (l (f a))) :
    Moves p others last g (if c then x >>= k else x' >>= k) (if c then y >>= l else y' >>= l) :=
  .ite (.bind hx hk) (.bind hy hk)

protected theorem get {k : Cursor → TokenReader γ} {l : Cursor → TokenReader δ}
    (h : ∀ c, Moves p others last g (k c) (l (c.relocate p))) :
    Moves p others last g (get >>= k) (get >>= l) where
  carries c hc := (h c).carries c hc
  stays c hc := (h c).stays c hc
  marks c hc := (h c).marks c hc

protected theorem peek {k : Token → TokenReader γ} {l : Token → TokenReader δ}
    (h : ∀ token, token.range.Marks others last →
      Moves p others last g (k token) (l (token.relocate p.place))) :
    Moves p others last g (peek >>= k) (peek >>= l) where
  carries c hc := by
    have hrest := (h c.current hc.marks).carries c hc
    rw [← c.current_relocate] at hrest
    exact hrest
  stays c hc := (h c.current hc.marks).stays c hc
  marks c hc := (h c.current hc.marks).marks c hc

protected theorem bump {k : Token → TokenReader γ} {l : Token → TokenReader δ}
    (h : ∀ token, token.range.Marks others last →
      Moves p others last g (k token) (l (token.relocate p.place))) :
    Moves p others last g (bump >>= k) (bump >>= l) where
  carries c hc := by
    have hrest := (h c.current hc.marks).carries c.advance hc.advance
    rw [← c.current_relocate, ← c.advance_relocate] at hrest
    exact hrest
  stays c hc := (h c.current hc.marks).stays c.advance hc.advance
  marks c hc := (h c.current hc.marks).marks c.advance hc.advance

protected theorem isAt {kind : TokenKind} {k : Bool → TokenReader γ} {l : Bool → TokenReader δ}
    (h : ∀ found, Moves p others last g (k found) (l found)) :
    Moves p others last g (isAt kind >>= k) (isAt kind >>= l) := by
  have hat : Moves p others last id (isAt kind) (isAt kind) := .peek fun _ _ => .pure rfl
  exact .bind hat h

protected theorem rangeFrom {start start' : Nat} {k : Range → TokenReader γ}
    {l : Range → TokenReader δ} (hs : start' = p.start start)
    (h : ∀ range, Moves p others last g (k range) (l (p.place range))) :
    Moves p others last g (rangeFrom start >>= k) (rangeFrom start' >>= l) := by
  subst hs
  exact .get fun c => h ⟨start, c.stop⟩

protected theorem eat {kind : TokenKind} {k : Bool → TokenReader γ} {l : Bool → TokenReader δ}
    (h : ∀ eaten, Moves p others last g (k eaten) (l eaten)) :
    Moves p others last g (eat kind >>= k) (eat kind >>= l) := by
  have heat : Moves p others last id (eat kind) (eat kind) :=
    .isAt fun _ => .ite (.bump fun _ _ => .pure rfl) (.pure rfl)
  exact .bind heat h

protected theorem unexpected (expected : Expected) :
    Moves p others last f (unexpected expected : TokenReader α) (unexpected expected) :=
  .peek fun _ hm => .throw hm rfl

theorem expect (kind : TokenKind) (expected : Expected) :
    Moves p others last (·.relocate p.place) (expect kind expected) (expect kind expected) :=
  .isAt fun _ => .ite (.bump fun _ _ => .pure rfl) (.unexpected expected)

protected theorem symbol {s : Symbol} {k : Token → TokenReader γ} {l : Token → TokenReader δ}
    (h : ∀ token, Moves p others last g (k token) (l (token.relocate p.place))) :
    Moves p others last g (symbol s >>= k) (symbol s >>= l) :=
  .bind (expect _ _) h

protected theorem keyword {s : Keyword} {k : Token → TokenReader γ} {l : Token → TokenReader δ}
    (h : ∀ token, Moves p others last g (k token) (l (token.relocate p.place))) :
    Moves p others last g (keyword s >>= k) (keyword s >>= l) :=
  .bind (expect _ _) h

protected theorem identifier :
    Moves p others last (·.relocate p.place) identifier identifier :=
  .bind (expect _ _) fun _ => .pure rfl

protected theorem semicolon {k : Unit → TokenReader γ} {l : Unit → TokenReader δ}
    (h : Moves p others last g (k ()) (l ())) :
    Moves p others last g (semicolon >>= k) (semicolon >>= l) := by
  have hsemicolon : Moves p others last id semicolon semicolon :=
    .eat fun _ => .ite (.pure rfl) (.peek fun _ _ => .ite (.pure rfl) (.unexpected _))
  exact .bind hsemicolon fun _ => h

end Moves

end TokenReader

end FlowLint
