import FlowLint.Proofs.Grammar.Bracket

/-!
Readers that stay in front of a word `in`: what they do is the same whatever stands behind the word.
One law for each way of putting readers together. The tokens in front of the word close the brackets
that are open, so within brackets the word is never the current token.
-/
namespace FlowLint
set_option autoImplicit true

/-- A token that is the word `in`. -/
abbrev InWord := { token : Token // token.kind = .keyword .in }

/-- Behind these tokens nothing is open any more. -/
def Closes (within : List Bracket) (left : List Token) : Prop :=
  nest within left = some []

/-- The token that is current with these tokens left in front of the word. -/
def InWord.current (word : InWord) (left : List Token) : Token :=
  left.headD word.1

namespace Closes

variable {word : InWord} {within : List Bracket} {left : List Token} {token : Token}

theorem exists_cons (h : Closes within left)
    (hk : (word.current left).kind = .keyword .in → within ≠ []) :
    ∃ rest, left = word.current left :: rest := by
  cases left with
  | nil =>
    cases h
    exact absurd rfl (hk word.2)
  | cons token rest => exact ⟨rest, rfl⟩

theorem tail (h : Closes within (token :: left)) (hd : token.kind ≠ .symbol .dot) :
    Closes (token.kind.nest within) left := by
  rw [Closes, nest_cons hd] at h
  exact h

theorem exists_property (h : Closes within (token :: left)) (hd : token.kind = .symbol .dot) :
    ∃ property rest, left = property :: rest ∧ Closes within rest := by
  cases left with
  | nil =>
    rw [Closes, nest, if_pos hd] at h
    cases h
  | cons property rest =>
    rw [Closes, nest_dot hd] at h
    exact ⟨property, rest, rfl, h⟩

end Closes

namespace TokenReader

variable {α β : Type}

/-- With some tokens left in front of a word `in`, a reader does the same whatever stands behind the
word, and where it succeeds it leaves tokens that close the brackets `within`. -/
def Stays (word : InWord) (within : List Bracket) (x : TokenReader α) (left : List Token)
    (stop : Nat) : Prop :=
  ∃ outcome : Except ParseError (α × List Token × Nat),
    (∀ rest endOfFile, x ⟨left ++ word.1 :: rest, endOfFile, stop⟩ =
      outcome.map fun (a, left, stop) => (a, ⟨left ++ word.1 :: rest, endOfFile, stop⟩)) ∧
    ∀ a left stop, outcome = .ok (a, left, stop) → Closes within left

namespace Stays

variable {word : InWord} {within inner outer : List Bracket} {x y : TokenReader α}
  {left rest : List Token} {stop : Nat} {kind : TokenKind}

theorem current_eq (word : InWord) (left rest : List Token) (endOfFile : Token) (stop : Nat) :
    Cursor.current ⟨left ++ word.1 :: rest, endOfFile, stop⟩ = word.current left := by
  cases left <;> rfl

protected theorem pure (h : Closes within left) (a : α) :
    (pure a : TokenReader α).Stays word within left stop := by
  refine ⟨.ok (a, left, stop), fun _ _ => rfl, ?_⟩
  intro b left' stop' he
  cases he
  exact h

protected theorem throw (error : ParseError) :
    (throw error : TokenReader α).Stays word within left stop :=
  ⟨.error error, fun _ _ => rfl, nofun⟩

protected theorem bind {f : α → TokenReader β} (h : x.Stays word inner left stop)
    (hf : ∀ a left stop, Closes inner left → (f a).Stays word within left stop) :
    (x >>= f).Stays word within left stop := by
  obtain ⟨outcome, hx, hleft⟩ := h
  cases outcome with
  | error error =>
    refine ⟨.error error, fun rest endOfFile => ?_, nofun⟩
    change (x _ >>= fun (a, d) => f a d) = _
    rw [hx]
    rfl
  | ok result =>
    obtain ⟨a, left', stop'⟩ := result
    obtain ⟨outcome, hrest, hclose⟩ := hf a left' stop' (hleft a left' stop' rfl)
    refine ⟨outcome, fun rest endOfFile => ?_, hclose⟩
    change (x _ >>= fun (a, d) => f a d) = _
    rw [hx]
    exact hrest rest endOfFile

protected theorem map {f : α → β} (h : x.Stays word within left stop) :
    (f <$> x).Stays word within left stop := by
  rw [map_eq_pure_bind]
  exact .bind h fun a _ _ hleft => .pure hleft (f a)

protected theorem ite {p : Prop} [Decidable p] (hx : p → x.Stays word within left stop)
    (hy : ¬ p → y.Stays word within left stop) :
    (if p then x else y).Stays word within left stop := by
  split
  · next hp => exact hx hp
  · next hp => exact hy hp

theorem ite_bind {p : Prop} [Decidable p] {f : α → TokenReader β} {m : List Bracket}
    (hx : p → x.Stays word m left stop) (hy : ¬ p → y.Stays word m left stop)
    (hf : ∀ a left stop, Closes m left → (f a).Stays word within left stop) :
    (if p then x >>= f else y >>= f).Stays word within left stop :=
  .ite (fun hp => .bind (hx hp) hf) fun hp => .bind (hy hp) hf

protected theorem peek {f : Token → TokenReader β}
    (h : (f (word.current left)).Stays word within left stop) :
    (peek >>= f).Stays word within left stop := by
  obtain ⟨outcome, hx, hclose⟩ := h
  refine ⟨outcome, fun rest endOfFile => ?_, hclose⟩
  rw [← hx rest endOfFile, ← current_eq word left rest endOfFile stop]
  rfl

protected theorem isAt {f : Bool → TokenReader β}
    (h : (f ((word.current left).kind == kind)).Stays word within left stop) :
    (isAt kind >>= f).Stays word within left stop := by
  have hpeek : (peek >>= fun token => f (token.kind == kind)).Stays word within left stop := .peek h
  exact hpeek

theorem nextKind (hx : x.Stays word within (token :: left) stop)
    (hy : y.Stays word within (token :: left) stop) :
    (get >>= fun cursor => if cursor.nextKind = kind then x else y).Stays word within
      (token :: left) stop := by
  have hnext (rest : List Token) (endOfFile : Token) :
      Cursor.nextKind ⟨token :: left ++ word.1 :: rest, endOfFile, stop⟩ =
        (word.current left).kind := by
    cases left <;> rfl
  have h : (if (word.current left).kind = kind then x else y).Stays word within (token :: left)
      stop := .ite (fun _ => hx) fun _ => hy
  obtain ⟨outcome, hread, hclose⟩ := h
  refine ⟨outcome, fun rest endOfFile => ?_, hclose⟩
  rw [← hread rest endOfFile, ← hnext rest endOfFile]
  rfl

protected theorem rangeFrom {f : Range → TokenReader β}
    (h : (f ⟨start, stop⟩).Stays word within left stop) :
    (rangeFrom start >>= f).Stays word within left stop :=
  h

protected theorem unexpected (expected : Expected) :
    (unexpected expected : TokenReader α).Stays word within left stop :=
  .peek (.throw _)

theorem bump_cons {f : Token → TokenReader β}
    (h : (f token).Stays word within left token.range.stop) :
    (bump >>= f).Stays word within (token :: left) stop :=
  h

/-- A token that is not the word, or stands in brackets, is in front of the word. -/
protected theorem bump {f : Token → TokenReader β} (h : Closes inner left)
    (hk : (word.current left).kind = kind) (hd : kind ≠ .symbol .dot)
    (hin : kind = .keyword .in → inner ≠ [])
    (hf : ∀ left' stop', Closes (kind.nest inner) left' →
      (f (word.current left)).Stays word within left' stop') :
    (bump >>= f).Stays word within left stop := by
  subst hk
  obtain ⟨rest, hleft⟩ := h.exists_cons hin
  rw [hleft] at h
  have hrest := hf rest (word.current left).range.stop (h.tail hd)
  rw [hleft]
  exact bump_cons hrest

theorem bump_plain {f : Token → TokenReader β} (h : Closes inner left)
    (hk : (word.current left).kind.Plain)
    (hin : (word.current left).kind = .keyword .in → inner ≠ [])
    (hf : ∀ left' stop', Closes inner left' →
      (f (word.current left)).Stays word within left' stop') :
    (bump >>= f).Stays word within left stop := by
  apply Stays.bump h rfl hk.ne_dot hin
  intro left' stop' hleft
  rw [hk.nest] at hleft
  exact hf left' stop' hleft

theorem eat_bind (kind : TokenKind) (f : Bool → TokenReader β) :
    (eat kind >>= f) =
      (isAt kind >>= fun found => if found = true then bump >>= fun _ => f true else f false) := by
  funext c
  change ((if (c.current.kind == kind) = true then bump >>= fun _ => pure true
    else pure false) >>= f) c = (if (c.current.kind == kind) = true then _ else _ : TokenReader β) c
  split <;> rfl

protected theorem eat {f : Bool → TokenReader β} (h : Closes inner left)
    (hd : kind ≠ .symbol .dot) (hin : kind = .keyword .in → inner ≠ [])
    (hx : ∀ left stop, Closes (kind.nest inner) left → (f true).Stays word within left stop)
    (hy : (f false).Stays word within left stop) :
    (eat kind >>= f).Stays word within left stop := by
  rw [eat_bind]
  exact .isAt (.ite (fun hk => .bump h (beq_iff_eq.1 hk) hd hin hx) fun _ => hy)

theorem eat_dot {f : Bool → TokenReader β} (h : Closes inner left)
    (hx : ∀ property left stop, Closes inner left →
      (f true).Stays word within (property :: left) stop)
    (hy : (f false).Stays word within left stop) :
    (eat (.symbol .dot) >>= f).Stays word within left stop := by
  rw [eat_bind]
  apply Stays.isAt
  apply Stays.ite
  · intro hk
    have hdot := beq_iff_eq.1 hk
    obtain ⟨rest, hleft⟩ := h.exists_cons fun hin => nomatch hdot.symm.trans hin
    rw [hleft] at h
    obtain ⟨property, rest, rfl, hrest⟩ := h.exists_property hdot
    rw [hleft]
    exact bump_cons (hx property rest _ hrest)
  · exact fun _ => hy

theorem eat_ite_bind {f : α → TokenReader β} {m : List Bracket} (h : Closes outer left)
    (hd : kind ≠ .symbol .dot) (hin : kind = .keyword .in → outer ≠ [])
    (hx : ∀ left stop, Closes (kind.nest outer) left → x.Stays word m left stop)
    (hy : y.Stays word m left stop)
    (hf : ∀ a left stop, Closes m left → (f a).Stays word within left stop) :
    (eat kind >>= fun eaten => if eaten = true then x >>= f else y >>= f).Stays word within left
      stop :=
  .eat h hd hin (fun left stop hleft => .bind (hx left stop hleft) hf) (.bind hy hf)

theorem expect {f : Token → TokenReader β} {expected : Expected} (h : Closes inner left)
    (hd : kind ≠ .symbol .dot) (hin : kind = .keyword .in → inner ≠ [])
    (hf : ∀ token left stop, Closes (kind.nest inner) left →
      (f token).Stays word within left stop) :
    (TokenReader.expect kind expected >>= f).Stays word within left stop := by
  have hexpect : (TokenReader.expect kind expected).Stays word (kind.nest inner) left stop := by
    apply Stays.isAt
    apply Stays.ite
    · intro hk
      rw [← bind_pure bump]
      exact .bump h (beq_iff_eq.1 hk) hd hin fun _ _ hleft => .pure hleft _
    · exact fun _ => .unexpected expected
  exact .bind hexpect hf

protected theorem symbol {s : Symbol} {f : Token → TokenReader β} (h : Closes inner left)
    (hd : s ≠ .dot) (hf : ∀ token left stop, Closes ((TokenKind.symbol s).nest inner) left →
      (f token).Stays word within left stop) : (symbol s >>= f).Stays word within left stop :=
  expect h (fun hk => hd (TokenKind.symbol.inj hk)) nofun hf

protected theorem keyword {k : Keyword} {f : Token → TokenReader β} (h : Closes inner left)
    (hin : k ≠ .in)
    (hf : ∀ token left stop, Closes inner left → (f token).Stays word within left stop) :
    (keyword k >>= f).Stays word within left stop :=
  expect h nofun (fun hk => absurd (TokenKind.keyword.inj hk) hin) hf

protected theorem identifier (h : Closes within left) :
    identifier.Stays word within left stop :=
  expect h nofun nofun fun _ _ _ hleft => .pure hleft _

protected theorem semicolon {f : Unit → TokenReader β} (h : Closes inner left)
    (hf : ∀ left stop, Closes inner left → (f ()).Stays word within left stop) :
    (semicolon >>= f).Stays word within left stop := by
  have hsemicolon : semicolon.Stays word inner left stop := by
    apply Stays.eat h (by nofun) (by nofun)
    · exact fun _ _ hleft => .pure hleft ()
    · exact .peek (.ite (fun _ => .pure h ()) fun _ => .unexpected _)
  exact .bind hsemicolon fun _ => hf

end Stays

end TokenReader

end FlowLint
