import FlowLint.Proofs.Grammar.Bound
import FlowLint.Proofs.Grammar.Word

namespace FlowLint
set_option autoImplicit true

namespace Cursor

/-- Across a token that is a word, on the same line as the token before. -/
def PassesWord (c : Cursor) (word : Word) (d : Cursor) : Prop :=
  ∃ token, c.Passes token d ∧ token.kind = word.kind ∧ token.text = word.text ∧
    token.newlineBefore = false

/-- The tokens from one cursor to another are the given words. -/
def Shows (c : Cursor) : List Word → Cursor → Prop
  | [], d => c = d
  | word :: words, d => ∃ m, c.PassesWord word m ∧ m.Shows words d

variable {c d : Cursor} {word : Word} {words xs ys : List Word}

@[simp] theorem shows_nil : c.Shows [] d ↔ c = d :=
  Iff.rfl

@[simp] theorem shows_cons :
    c.Shows (word :: words) d ↔ ∃ m, c.PassesWord word m ∧ m.Shows words d :=
  Iff.rfl

@[simp] theorem shows_append : c.Shows (xs ++ ys) d ↔ ∃ m, c.Shows xs m ∧ m.Shows ys d := by
  induction xs generalizing c with
  | nil => simp
  | cons x xs ih =>
    simp only [List.cons_append, shows_cons, ih]
    constructor
    · rintro ⟨m, hw, e, hx, hy⟩
      exact ⟨e, ⟨m, hw, hx⟩, hy⟩
    · rintro ⟨e, ⟨m, hw, hx⟩, hy⟩
      exact ⟨m, hw, e, hx, hy⟩

@[simp] theorem shows_enclosed :
    c.Shows (Word.enclosed left right words) d ↔
      ∃ m, c.PassesWord (.symbol left) m ∧ ∃ e, m.Shows words e ∧ e.PassesWord (.symbol right) d := by
  simp [Word.enclosed]

namespace PassesWord

theorem current (h : c.PassesWord word d) : c.current.kind = word.kind := by
  obtain ⟨token, hp, hk, -⟩ := h
  rw [hp.current, hk]

theorem text_current (h : c.PassesWord word d) : c.current.text = word.text := by
  obtain ⟨token, hp, -, ht, -⟩ := h
  rw [hp.current, ht]

theorem newlineBefore (h : c.PassesWord word d) : c.current.newlineBefore = false := by
  obtain ⟨token, hp, -, -, hn⟩ := h
  rw [hp.current, hn]

theorem passes (h : c.PassesWord word d) : c.Passes c.current d := by
  obtain ⟨token, hp, -⟩ := h
  rwa [hp.current]

theorem nextKind (h : c.PassesWord word d) : c.nextKind = d.current.kind := by
  obtain ⟨token, hp, -⟩ := h
  rw [Cursor.nextKind, Cursor.current, hp.ahead, hp.endOfFile]
  rfl

end PassesWord

theorem Shows.current_enclosed (h : c.Shows (Word.enclosed left right words) d) :
    c.current.kind = .symbol left := by
  obtain ⟨m, hl, -⟩ := shows_enclosed.1 h
  exact hl.current

theorem Shows.newlineBefore_enclosed (h : c.Shows (Word.enclosed left right words) d) :
    c.current.newlineBefore = false := by
  obtain ⟨m, hl, -⟩ := shows_enclosed.1 h
  exact hl.newlineBefore

end Cursor

namespace TokenReader

variable {α β : Type} {c d m : Cursor}

/-- From one cursor to another, a reader reads something that satisfies a condition. -/
def Reads (x : TokenReader α) (c d : Cursor) (P : α → Prop) : Prop :=
  c.Closed → d.Closed ∧ ∃ a, x c = .ok (a, d) ∧ P a

namespace Reads

variable {x y : TokenReader α} {P : α → Prop} {Q : β → Prop} {kind : TokenKind}

theorem mono {P P' : α → Prop} (h : x.Reads c d P) (hp : ∀ a, P a → P' a) : x.Reads c d P' := by
  intro hc
  obtain ⟨hd, a, ha, h⟩ := h hc
  exact ⟨hd, a, ha, hp a h⟩

protected theorem pure {a : α} (h : P a) : (pure a : TokenReader α).Reads c c P :=
  fun hc => ⟨hc, a, rfl, h⟩

protected theorem bind {f : α → TokenReader β} (h : x.Reads c m P)
    (hf : ∀ a, P a → (f a).Reads m d Q) : (x >>= f).Reads c d Q := by
  intro hc
  obtain ⟨hm, a, ha, hp⟩ := h hc
  obtain ⟨hd, b, hb, hq⟩ := hf a hp hm
  exact ⟨hd, b, bind_eq_ok.2 ⟨(a, m), ha, hb⟩, hq⟩

protected theorem map {f : α → β} (h : x.Reads c d P) (hf : ∀ a, P a → Q (f a)) :
    (f <$> x).Reads c d Q := by
  rw [map_eq_pure_bind]
  exact .bind h fun a ha => .pure (hf a ha)

theorem ite_pos {p : Prop} [Decidable p] (hp : p) (h : x.Reads c d P) :
    (if p then x else y).Reads c d P := by
  rwa [if_pos hp]

theorem ite_neg {p : Prop} [Decidable p] (hp : ¬ p) (h : y.Reads c d P) :
    (if p then x else y).Reads c d P := by
  rwa [if_neg hp]

theorem ite_bind {p : Prop} [Decidable p] {f : α → TokenReader β} (hx : p → x.Reads c m P)
    (hy : ¬ p → y.Reads c m P) (hf : ∀ a, P a → (f a).Reads m d Q) :
    (if p then x >>= f else y >>= f).Reads c d Q := by
  split
  · next hp => exact .bind (hx hp) hf
  · next hp => exact .bind (hy hp) hf

theorem bind_ite {b : TokenReader Bool} {f : α → TokenReader β}
    (h : (b >>= fun p => if p then x else y).Reads c m P) (hf : ∀ a, P a → (f a).Reads m d Q) :
    (b >>= fun p => if p then x >>= f else y >>= f).Reads c d Q := by
  have he : (b >>= fun p => if p then x >>= f else y >>= f) =
      (b >>= fun p => if p then x else y) >>= f := by
    rw [bind_assoc]
    congr 1
    funext p
    cases p <;> rfl
  rw [he]
  exact .bind h hf

protected theorem peek {f : Token → TokenReader β} (h : (f c.current).Reads c d Q) :
    (peek >>= f).Reads c d Q :=
  h

protected theorem get {f : Cursor → TokenReader β} (h : (f c).Reads c d Q) :
    (get >>= f).Reads c d Q :=
  h

protected theorem isAt {f : Bool → TokenReader β}
    (h : (f (c.current.kind == kind)).Reads c d Q) : (isAt kind >>= f).Reads c d Q :=
  h

theorem isAt_true {f : Bool → TokenReader β} (hk : c.current.kind = kind)
    (h : (f true).Reads c d Q) : (isAt kind >>= f).Reads c d Q := by
  change (f (c.current.kind == kind)).Reads c d Q
  rwa [beq_iff_eq.2 hk]

theorem isAt_false {f : Bool → TokenReader β} (hk : c.current.kind ≠ kind)
    (h : (f false).Reads c d Q) : (isAt kind >>= f).Reads c d Q := by
  change (f (c.current.kind == kind)).Reads c d Q
  rwa [beq_eq_false_iff_ne.2 hk]

protected theorem rangeFrom {f : Range → TokenReader β} (h : ∀ range, (f range).Reads c d Q) :
    (rangeFrom start >>= f).Reads c d Q :=
  h _

protected theorem bump {f : Token → TokenReader β} (hp : c.PassesWord word m)
    (h : (f c.current).Reads m d Q) : (bump >>= f).Reads c d Q := by
  intro hc
  obtain ⟨hd, b, hb, hq⟩ := h (hp.passes.closed hc)
  refine ⟨hd, b, ?_, hq⟩
  change f c.current c.advance = _
  rw [hp.passes.advance, hb]

theorem eat_true {f : Bool → TokenReader β} (hp : c.PassesWord word m) (hk : word.kind = kind)
    (h : (f true).Reads m d Q) : (eat kind >>= f).Reads c d Q := by
  have he : (eat kind).Reads c m fun eaten => eaten = true :=
    .isAt_true (hp.current.trans hk) (.bump hp (.pure rfl))
  exact .bind he fun _ ht => ht ▸ h

theorem eat_false {f : Bool → TokenReader β} (hk : c.current.kind ≠ kind)
    (h : (f false).Reads c d Q) : (eat kind >>= f).Reads c d Q := by
  have he : (eat kind).Reads c c fun eaten => eaten = false := .isAt_false hk (.pure rfl)
  exact .bind he fun _ ht => ht ▸ h

theorem expect {expected : Expected} (hp : c.PassesWord word m) (hk : word.kind = kind) :
    (TokenReader.expect kind expected).Reads c m fun token => token = c.current := by
  refine .isAt_true (hp.current.trans hk) (.ite_pos rfl ?_)
  rw [← bind_pure TokenReader.bump]
  exact .bump hp (.pure rfl)

protected theorem symbol {f : Token → TokenReader β} (hp : c.PassesWord (.symbol s) m)
    (h : (f c.current).Reads m d Q) : (symbol s >>= f).Reads c d Q :=
  .bind (expect hp rfl) fun _ ht => ht ▸ h

protected theorem keyword {f : Token → TokenReader β} (hp : c.PassesWord (.keyword k) m)
    (h : (f c.current).Reads m d Q) : (keyword k >>= f).Reads c d Q :=
  .bind (expect hp rfl) fun _ ht => ht ▸ h

protected theorem identifier (hp : c.PassesWord (.name text) m) :
    identifier.Reads c m fun id => id.name = text := by
  refine .bind (expect hp rfl) ?_
  rintro _ rfl
  exact .pure hp.text_current

protected theorem semicolon {f : Unit → TokenReader β} (hp : c.PassesWord (.symbol .semicolon) m)
    (h : (f ()).Reads m d Q) : (semicolon >>= f).Reads c d Q := by
  have he : semicolon.Reads c m fun _ => True := .eat_true hp rfl (.pure trivial)
  exact .bind he fun _ _ => h

protected theorem parse {p : Production α} (ha : p.Admits c)
    (h : TokenReader.Reads (Grammar.read Production.parse p) c d P) : p.parse.Reads c d P := by
  intro hc
  rw [Production.parse_eq_read hc ha]
  exact h hc

end Reads

end TokenReader

end FlowLint
