import FlowLint.Token.Lexeme
import Mathlib.Data.List.TakeWhile

/-!
Which texts are tokens. What was read as a token somewhere is read as that token wherever a
separator follows, so tokens can be taken out of their source and written down elsewhere.
-/
namespace FlowLint
set_option autoImplicit true

/-- Nothing follows, or a blank or a line feed does. -/
def Apart (rest : List Char) : Prop :=
  ∀ c ∈ rest.head?, c = ' ' ∨ c = '\n'

namespace Apart

theorem nil : Apart [] :=
  nofun

theorem blank : Apart (' ' :: rest) := by
  simp [Apart]

theorem head_not (hr : Apart rest) {p : Char → Bool} (hb : p ' ' = false) (hl : p '\n' = false) :
    ∀ c ∈ rest.head?, p c = false := by
  intro c hc
  rcases hr c hc with rfl | rfl
  · exact hb
  · exact hl

theorem head_any (hr : Apart rest) {p : Char → Bool} (hb : p ' ' = false) (hl : p '\n' = false) :
    rest.head?.any p = false := by
  cases rest with
  | nil => rfl
  | cons c rest => exact hr.head_not hb hl c rfl

/-- What does not start behind a text with the rest it had does not start there with a separator
as its rest. -/
theorem append_head_any (hr : Apart rest') {p : Char → Bool}
    (h : (t ++ rest).head?.any p = false) (hb : p ' ' = false) (hl : p '\n' = false) :
    (t ++ rest').head?.any p = false := by
  cases t with
  | nil => exact hr.head_any hb hl
  | cons c t => exact h

end Apart

theorem takeWhile_append_stop {p : α → Bool} {xs ys : List α} (hx : ∀ x ∈ xs, p x = true)
    (hy : ∀ y ∈ ys.head?, p y = false) : (xs ++ ys).takeWhile p = xs := by
  rw [List.takeWhile_append_of_pos hx]
  cases ys with
  | nil => simp
  | cons y ys => simp [hy y rfl]

theorem dropWhile_append_stop {p : α → Bool} {xs ys : List α} (hx : ∀ x ∈ xs, p x = true)
    (hy : ∀ y ∈ ys.head?, p y = false) : (xs ++ ys).dropWhile p = ys := by
  rw [List.dropWhile_append_of_pos hx]
  cases ys with
  | nil => rfl
  | cons y ys => simp [hy y rfl]

section Numbers

/-- A marker, perhaps a sign, and digits. -/
structure Exponent.Shaped (exponent : Exponent) : Prop where
  marker : exponent.marker = 'e' ∨ exponent.marker = 'E'
  sign : ∀ c ∈ exponent.sign, c = '+' ∨ c = '-'
  digits : ∀ c ∈ exponent.digits, c.isDigit = true

structure Decimal.Shaped (decimal : Decimal) : Prop where
  whole : ∀ c ∈ decimal.whole, c.isDigit = true
  fraction : ∀ ds ∈ decimal.fraction, ∀ c ∈ ds, c.isDigit = true
  exponent : ∀ exponent ∈ decimal.exponent, exponent.Shaped

inductive NumberLiteral.Shaped : NumberLiteral → Prop
  | hexadecimal (hm : marker = 'x' ∨ marker = 'X')
      (hd : ∀ c ∈ digits, Character.isHexDigit c = true) : Shaped (.hexadecimal marker digits)
  | decimal (h : value.Shaped) : Shaped (.decimal value)

variable {cs ds rest : List Char} {marker : Char}

theorem isDigit_of_mem_takeWhile : ∀ c ∈ cs.takeWhile Char.isDigit, c.isDigit = true :=
  fun _ hc => List.mem_takeWhile_imp hc

namespace Exponent

theorem shaped_afterMarker (hm : marker = 'e' ∨ marker = 'E') :
    (afterMarker marker cs).1.Shaped := by
  unfold afterMarker
  split
  · exact ⟨hm, by simp, isDigit_of_mem_takeWhile⟩
  · exact ⟨hm, by simp, isDigit_of_mem_takeWhile⟩
  · exact ⟨hm, by simp, isDigit_of_mem_takeWhile⟩

theorem shaped_split : ∀ exponent ∈ (split cs).1, exponent.Shaped := by
  unfold split
  split
  · rintro exponent ⟨⟩
  · split
    · next hm =>
      rintro exponent ⟨⟩
      exact shaped_afterMarker hm
    · rintro exponent ⟨⟩

theorem afterMarker_digits (hd : ∀ c ∈ ds, c.isDigit = true) (hr : Apart rest) :
    afterMarker marker (ds ++ rest) = (⟨marker, none, ds⟩, rest) := by
  have hn : ∀ c ∈ rest.head?, c.isDigit = false := hr.head_not rfl rfl
  have hs : ∀ c ∈ (ds ++ rest).head?, c ≠ '+' ∧ c ≠ '-' := by
    cases ds with
    | nil =>
      intro c hc
      rcases hr c hc with rfl | rfl <;> decide
    | cons d ds =>
      rintro c ⟨⟩
      have hd := hd d (List.mem_cons_self ..)
      constructor <;> rintro rfl <;> cases hd
  unfold afterMarker
  split
  · next cs he => simp [he] at hs
  · next cs he => simp [he] at hs
  · rw [takeWhile_append_stop hd hn, dropWhile_append_stop hd hn]

theorem Shaped.split_text (h : Shaped exponent) (hr : Apart rest) :
    split (exponent.text ++ rest) = (some exponent, rest) := by
  obtain ⟨marker, sign, ds⟩ := exponent
  have hd : ∀ c ∈ rest.head?, c.isDigit = false := hr.head_not rfl rfl
  simp only [text, List.cons_append, split, if_pos h.marker]
  cases sign with
  | none => simp [afterMarker_digits h.digits hr]
  | some c =>
    have ht := takeWhile_append_stop h.digits hd
    have hdrop := dropWhile_append_stop h.digits hd
    rcases h.sign c rfl with rfl | rfl <;> simp_all [afterMarker]

theorem split_of_apart (hr : Apart rest) : split rest = (none, rest) := by
  cases rest with
  | nil => rfl
  | cons c rest => rcases hr c rfl with rfl | rfl <;> rfl

/-- What may follow the digits of a decimal does not go on with them. -/
theorem head_elim_text {exponent : Option Exponent} (h : ∀ e ∈ exponent, e.Shaped)
    (hr : Apart rest) :
    ∀ c ∈ (exponent.elim [] text ++ rest).head?, c.isDigit = false ∧ c ≠ '.' := by
  cases exponent with
  | none =>
    intro c hc
    rcases hr c hc with rfl | rfl <;> decide
  | some e =>
    rintro c ⟨⟩
    rcases (h e rfl).marker with hm | hm <;> rw [hm] <;> decide

end Exponent

namespace Decimal

theorem shaped_split : (split cs).1.Shaped := by
  refine ⟨isDigit_of_mem_takeWhile, fun ds hd => ?_, Exponent.shaped_split⟩
  change ds ∈ (splitFraction _).1 at hd
  unfold splitFraction at hd
  split at hd <;> cases hd
  exact isDigit_of_mem_takeWhile

theorem splitFraction_text_append {fraction : Option (List Char)}
    (hf : ∀ ds ∈ fraction, ∀ c ∈ ds, c.isDigit = true)
    (hr : ∀ c ∈ rest.head?, c.isDigit = false ∧ c ≠ '.') :
    splitFraction (fraction.elim [] ('.' :: ·) ++ rest) = (fraction, rest) := by
  cases fraction with
  | none =>
    unfold splitFraction
    split
    · next he => exact absurd rfl (hr '.' (by simp_all)).2
    · rfl
  | some ds =>
    have hn : ∀ c ∈ rest.head?, c.isDigit = false := fun c hc => (hr c hc).1
    simp [splitFraction, takeWhile_append_stop (hf ds rfl) hn, dropWhile_append_stop (hf ds rfl) hn]

theorem Shaped.split_text (h : Shaped decimal) (hr : Apart rest) :
    split (decimal.text ++ rest) = (decimal, rest) := by
  obtain ⟨whole, fraction, exponent⟩ := decimal
  have he := Exponent.head_elim_text h.exponent hr
  have hw : ∀ c ∈ (fraction.elim [] ('.' :: ·) ++ (exponent.elim [] Exponent.text ++ rest)).head?,
      c.isDigit = false := by
    cases fraction with
    | none => exact fun c hc => (he c hc).1
    | some ds =>
      rintro c ⟨⟩
      decide
  have hs : Exponent.split (exponent.elim [] Exponent.text ++ rest) = (exponent, rest) := by
    cases exponent with
    | none => exact Exponent.split_of_apart hr
    | some e => exact (h.exponent e rfl).split_text hr
  simp only [split, text, List.append_assoc, takeWhile_append_stop h.whole hw,
    dropWhile_append_stop h.whole hw, splitFraction_text_append h.fraction he, hs]

end Decimal

namespace NumberLiteral

theorem shaped_split (cs : List Char) : (split cs).1.Shaped := by
  unfold split
  split
  · split
    · next hm => exact .hexadecimal hm fun _ hc => List.mem_takeWhile_imp hc
    · exact .decimal Decimal.shaped_split
  · exact .decimal Decimal.shaped_split

/-- No decimal starts with the prefix of hexadecimal literals. -/
theorem split_decimal (h : Decimal.Shaped value) (hr : Apart rest) :
    split (value.text ++ rest) = (.decimal value, rest) := by
  have hs := h.split_text hr
  unfold split
  split
  · next marker cs he =>
    split
    · next hm =>
      rw [he] at hs
      rcases hm with rfl | rfl
      · obtain rfl : 'x' :: cs = rest := congrArg Prod.snd hs
        simp [Apart] at hr
      · obtain rfl : 'X' :: cs = rest := congrArg Prod.snd hs
        simp [Apart] at hr
    · rw [← he, hs]
  · rw [hs]

theorem Shaped.split_text (h : Shaped literal) (hr : Apart rest) :
    split (literal.text ++ rest) = (literal, rest) := by
  cases h with
  | hexadecimal hm hd =>
    have hn : ∀ c ∈ rest.head?, Character.isHexDigit c = false := hr.head_not rfl rfl
    simp [text, split, hm, takeWhile_append_stop hd hn, dropWhile_append_stop hd hn]
  | decimal h => exact split_decimal h hr

theorem split_point (cs : List Char) (hd : d.isDigit = true) :
    ∃ t, (split ('.' :: d :: cs)).1.text = '.' :: d :: t := by
  simp [split, text, Decimal.split, Decimal.splitFraction, Decimal.text, hd]

end NumberLiteral

end Numbers

namespace Quoted

theorem splitBody_cons (hc : c ≠ '\\') : splitBody quote (c :: cs) =
    if c = quote then .ok ([c], cs)
    else if Character.isLineEnd c then .error [c]
    else match splitBody quote cs with
      | .ok (body, rest) => .ok (c :: body, rest)
      | .error read => .error (c :: read) :=
  splitBody.eq_4 _ _ _ (fun h => absurd h hc) fun _ _ h => absurd h hc

theorem ne_backslash {c : Char} {cs : List Char} (hn : c = '\\' → cs = [] → False)
    (hs : ∀ d ds, c = '\\' → cs = d :: ds → False) : c ≠ '\\' := by
  intro hc
  cases cs with
  | nil => exact hn hc rfl
  | cons d ds => exact hs d ds hc rfl

/-- Where the closing quote is depends on nothing behind it. -/
theorem splitBody_append (h : splitBody quote cs = .ok (body, rest)) (rest' : List Char) :
    splitBody quote (body ++ rest') = .ok (body, rest') := by
  fun_induction splitBody quote cs generalizing body rest with
  | case1 => cases h
  | case2 => cases h
  | case3 c cs body rest hs ih =>
    cases h
    simp [splitBody, ih hs]
  | case4 => cases h
  | case5 cs hn hs =>
    cases h
    exact (splitBody_cons (ne_backslash hn hs)).trans (if_pos rfl)
  | case6 => cases h
  | case7 c cs hn hs hq hl body rest hr ih =>
    cases h
    rw [List.cons_append, splitBody_cons (ne_backslash hn hs), if_neg hq, if_neg hl, ih hr]
  | case8 => cases h

end Quoted

namespace Symbol

theorem isPrefixOf_append {xs ys : List Char} (hx : ∀ c ∈ xs, c ≠ ' ' ∧ c ≠ '\n')
    (hr : Apart rest) : xs.isPrefixOf (ys ++ rest) = xs.isPrefixOf ys := by
  induction xs generalizing ys with
  | nil => simp
  | cons x xs ih =>
    obtain ⟨hx, hxs⟩ := List.forall_mem_cons.1 hx
    cases ys with
    | nil =>
      cases rest with
      | nil => rfl
      | cons c rest => rcases hr c rfl with rfl | rfl <;> simp [List.isPrefixOf, hx]
    | cons y ys => simp [List.isPrefixOf, ih hxs]

theorem longest?_text (symbol : Symbol) : longest? symbol.text.toList = some symbol := by
  cases symbol <;> decide

theorem longest?_text_append (symbol : Symbol) (hr : Apart rest) :
    longest? (symbol.text.toList ++ rest) = some symbol := by
  have ha : ∀ s : Symbol, ∀ c ∈ s.text.toList, c ≠ ' ' ∧ c ≠ '\n' := by
    intro s
    cases s <;> simp [text]
  rw [← longest?_text symbol, longest?, longest?]
  congr 1
  funext s
  exact isPrefixOf_append (ha s) hr

end Symbol

namespace Lexeme

variable {c : Char} {cs t text rest rest' : List Char} {kind : TokenKind}

theorem splitName_append (h : splitName cs = (token kind text, rest)) (hr : Apart rest') :
    splitName (text ++ rest') = (token kind text, rest') := by
  simp only [splitName, Prod.mk.injEq, token.injEq] at h
  obtain ⟨⟨hk, ht⟩, -⟩ := h
  have hall : ∀ d ∈ text, Character.isNamePart d = true := fun d hd =>
    List.mem_takeWhile_imp (ht ▸ hd)
  have hstop : ∀ d ∈ rest'.head?, Character.isNamePart d = false := hr.head_not rfl rfl
  rw [ht] at hk
  simp only [splitName, takeWhile_append_stop hall hstop, dropWhile_append_stop hall hstop, hk]

theorem splitNumber_append (h : splitNumber cs = .ok (token kind text, rest)) (hr : Apart rest') :
    splitNumber (text ++ rest') = .ok (token kind text, rest') := by
  have hn : rest'.head?.any Character.isNameStart = false := hr.head_any rfl rfl
  unfold splitNumber at h
  split at h
  · cases h
  · next literal rest hd hs =>
    split at h
    · cases h
    · cases h
      have ht : literal.Shaped := by simpa [hs] using NumberLiteral.shaped_split cs
      unfold splitNumber
      rw [ht.split_text hr]
      split
      · next he =>
        cases he
        exact (hd _ rfl).elim
      · next he =>
        cases he
        exact if_neg (Bool.eq_false_iff.1 hn)

theorem splitString_append (h : splitString quote cs = .ok (token kind (c :: t), rest)) :
    splitString quote (t ++ rest') = .ok (token kind (c :: t), rest') := by
  unfold splitString at h
  split at h
  · next body rest hb =>
    cases h
    simp [splitString, Quoted.splitBody_append hb]
  · cases h

theorem splitSymbol_append (h : splitSymbol c cs = .ok (token kind (d :: t), rest))
    (hr : Apart rest') : splitSymbol d (t ++ rest') = .ok (token kind (d :: t), rest') := by
  unfold splitSymbol at h
  split at h
  · next s hs =>
    simp only [Except.ok.injEq, Prod.mk.injEq, token.injEq] at h
    obtain ⟨⟨rfl, ht⟩, -⟩ := h
    have hl := s.longest?_text_append hr
    rw [ht] at hl
    simp only [splitSymbol, ← List.cons_append, hl, ht, List.drop_left]
  · cases h

/-- Two slashes, or a slash and a star. -/
def startsComment (c : Char) (cs : List Char) : Bool :=
  c == '/' && cs.head?.any fun d => d == '/' || d == '*'

theorem split_of_not_startsComment (hb : Character.isBlank c = false)
    (hc : startsComment c cs = false) : split c cs = splitToken c cs := by
  unfold split
  rw [if_neg (Bool.eq_false_iff.1 hb)]
  split
  · cases hc
  · cases hc
  · rfl

theorem splitToken_of_split (h : split c cs = .ok (token kind text, rest)) :
    Character.isBlank c = false ∧ startsComment c cs = false ∧
      splitToken c cs = .ok (token kind text, rest) := by
  unfold split at h
  split at h
  · cases h
  · next hb =>
    split at h
    · cases h
    · split at h <;> cases h
    · next hs hc =>
      refine ⟨Bool.eq_false_iff.2 hb, ?_, h⟩
      cases cs with
      | nil => exact Bool.and_false _
      | cons d cs =>
        simp only [startsComment, List.head?_cons, Option.any_some, Bool.and_eq_false_imp, beq_iff_eq]
        rintro rfl
        simpa using ⟨fun hd => hs cs rfl (hd ▸ rfl), fun hd => hc cs rfl (hd ▸ rfl)⟩

theorem exists_cons_of_split (h : split c cs = .ok (token kind text, rest)) :
    ∃ t, text = c :: t ∧ cs = t ++ rest := by
  obtain ⟨ht, hn⟩ := split_splitsOff h
  cases text with
  | nil => exact absurd rfl hn
  | cons d t =>
    obtain ⟨rfl, rfl⟩ := List.cons.inj ht
    exact ⟨t, rfl, rfl⟩

theorem text_of_splitNumber (h : splitNumber cs = .ok (token kind text, rest)) :
    text = (NumberLiteral.split cs).1.text := by
  unfold splitNumber at h
  split at h
  · cases h
  · next hs =>
    split at h <;> cases h
    rw [hs]

theorem startsNumber_append (h : splitNumber (c :: (t ++ rest)) = .ok (token kind (c :: t), rest))
    (hc : startsNumber c (t ++ rest) = true) : startsNumber c (t ++ rest') = true := by
  cases t with
  | cons d t => exact hc
  | nil =>
    rcases Bool.or_eq_true_iff.1 hc with hd | hp
    · simp [startsNumber, hd]
    · obtain ⟨hp, hd⟩ := Bool.and_eq_true_iff.1 hp
      obtain rfl := eq_of_beq hp
      cases rest with
      | nil => cases hd
      | cons d rest =>
        obtain ⟨t, ht⟩ := NumberLiteral.split_point rest hd
        cases ht.symm.trans (text_of_splitNumber h).symm

theorem splitToken_append (h : splitToken c (t ++ rest) = .ok (token kind (c :: t), rest))
    (hr : Apart rest') : splitToken c (t ++ rest') = .ok (token kind (c :: t), rest') := by
  unfold splitToken at h ⊢
  split at h
  · next hc =>
    rw [if_pos hc]
    exact congrArg _ (splitName_append (Except.ok.inj h) hr)
  · next hc =>
    rw [if_neg hc]
    split at h
    · next hn =>
      rw [if_pos (startsNumber_append h hn)]
      exact splitNumber_append h hr
    · next hn =>
      have hn' : ¬ startsNumber c (t ++ rest') = true := by
        rw [Bool.not_eq_true, startsNumber, Bool.or_eq_false_iff] at hn ⊢
        refine ⟨hn.1, ?_⟩
        simp only [Bool.and_eq_false_imp] at hn ⊢
        exact fun hp => hr.append_head_any (hn.2 hp) rfl rfl
      rw [if_neg hn']
      split at h
      · next hq =>
        rw [if_pos hq]
        exact splitString_append h
      · next hq =>
        rw [if_neg hq]
        exact splitSymbol_append h hr

/-- Some source has the text as a token of the kind. -/
def IsToken (kind : TokenKind) (text : List Char) : Prop :=
  ∃ c cs rest, split c cs = .ok (token kind text, rest)

theorem IsToken.split_append (h : IsToken kind text) (hr : Apart rest') :
    ∃ c t, text = c :: t ∧ split c (t ++ rest') = .ok (token kind text, rest') := by
  obtain ⟨c, cs, rest, hs⟩ := h
  obtain ⟨t, rfl, rfl⟩ := exists_cons_of_split hs
  obtain ⟨hb, hc, ht⟩ := splitToken_of_split hs
  refine ⟨c, t, rfl, ?_⟩
  rw [split_of_not_startsComment hb, splitToken_append ht hr]
  rw [startsComment, Bool.and_eq_false_imp] at hc ⊢
  exact fun hd => hr.append_head_any (hc hd) rfl rfl

namespace IsToken

/-- A text that starts like a name is a name or a reserved word; other texts are numbers, strings
or symbols. -/
theorem kind_cases (h : IsToken kind text) :
    (text.head?.any Character.isNameStart = true ∧
      kind = match Keyword.ofWord? text with
        | some keyword => .keyword keyword
        | none => .name) ∨
    (text.head?.any Character.isNameStart = false ∧
      (kind = .number ∨ kind = .string ∨ ∃ s, kind = .symbol s ∧ text = s.text.toList)) := by
  obtain ⟨c, cs, rest, hs⟩ := h
  obtain ⟨t, rfl, rfl⟩ := exists_cons_of_split hs
  obtain ⟨-, -, h⟩ := splitToken_of_split hs
  unfold splitToken at h
  split at h
  · next hc =>
    simp only [splitName, Except.ok.injEq, Prod.mk.injEq, token.injEq] at h
    obtain ⟨⟨hk, ht⟩, -⟩ := h
    rw [ht] at hk
    exact .inl ⟨hc, hk.symm⟩
  · next hc =>
    refine .inr ⟨Bool.eq_false_iff.2 hc, ?_⟩
    split at h
    · unfold splitNumber at h
      split at h
      · cases h
      · split at h
        · cases h
        · simp only [Except.ok.injEq, Prod.mk.injEq, token.injEq] at h
          exact .inl h.1.1.symm
    · split at h
      · unfold splitString at h
        split at h <;> cases h
        exact .inr (.inl rfl)
      · unfold splitSymbol at h
        split at h
        · next s _ =>
          simp only [Except.ok.injEq, Prod.mk.injEq, token.injEq] at h
          exact .inr (.inr ⟨s, h.1.1.symm, h.1.2.symm⟩)
        · cases h

theorem text_of_keyword (h : IsToken (.keyword k) text) : text = k.text.toList := by
  rcases h.kind_cases with ⟨-, hk⟩ | ⟨-, hk | hk | ⟨s, hk, -⟩⟩
  · split at hk
    · next hw =>
      cases hk
      exact (Keyword.text_of_ofWord? hw).symm
    · cases hk
  · cases hk
  · cases hk
  · cases hk

theorem text_of_symbol (h : IsToken (.symbol s) text) : text = s.text.toList := by
  rcases h.kind_cases with ⟨-, hk⟩ | ⟨-, hk | hk | ⟨s, hk, ht⟩⟩
  · split at hk <;> cases hk
  · cases hk
  · cases hk
  · cases hk
    exact ht

theorem kind_ne_endOfFile (h : IsToken kind text) : kind ≠ .endOfFile := by
  rintro rfl
  rcases h.kind_cases with ⟨-, hk⟩ | ⟨-, hk | hk | ⟨s, hk, -⟩⟩
  · split at hk <;> cases hk
  · cases hk
  · cases hk
  · cases hk

theorem symbol (s : Symbol) : IsToken (.symbol s) s.text.toList := by
  refine ⟨s.text.toList.headD ' ', s.text.toList.tail, [], ?_⟩
  cases s <;> rfl

theorem keyword (k : Keyword) : IsToken (.keyword k) k.text.toList := by
  refine ⟨k.text.toList.headD ' ', k.text.toList.tail, [], ?_⟩
  cases k <;> rfl

end IsToken

end Lexeme

end FlowLint
