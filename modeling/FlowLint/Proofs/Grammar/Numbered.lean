import FlowLint.Proofs.Grammar.MoveStatement
import FlowLint.Proofs.Grammar.Nesting
import Mathlib.Order.Interval.Set.Defs
import Mathlib.Order.Monotone.Basic

namespace FlowLint
set_option autoImplicit true

namespace Token

/-- What a token is apart from its place. -/
def face (token : Token) : TokenKind × String × Bool :=
  (token.kind, token.text, token.newlineBefore)

/-- The token that starts at a number and ends at the next one. -/
def withNumber (number : Nat) (token : Token) : Token :=
  { token with range := ⟨number, number + 1⟩ }

/-- The tokens with numbers in ascending order. -/
def numbered (number : Nat) : List Token → List Token
  | [] => []
  | token :: list => token.withNumber number :: numbered (number + 1) list

variable {list list' others : List Token} {token last : Token} {number index : Nat}

/-- Numbered tokens tell nothing about places. -/
theorem numbered_congr (h : list.map face = list'.map face) :
    numbered number list = numbered number list' := by
  induction list generalizing list' number with
  | nil =>
    obtain rfl := List.map_eq_nil_iff.1 h.symm
    rfl
  | cons token list ih =>
    obtain ⟨token', list', rfl, hf, hl⟩ := List.map_eq_cons_iff.1 h.symm
    obtain ⟨kind, text, range, newline⟩ := token
    obtain ⟨kind', text', range', newline'⟩ := token'
    cases hf
    rw [numbered, numbered, ih hl.symm]
    rfl

theorem numbered_append : numbered number (others ++ [last]) =
    numbered number others ++ [last.withNumber (number + others.length)] := by
  induction others generalizing number with
  | nil => rfl
  | cons token others ih =>
    rw [List.cons_append, numbered, ih, numbered, List.length_cons, List.cons_append,
      Nat.add_right_comm, Nat.add_assoc number]

theorem getElem?_numbered (index : Nat) :
    (numbered number list)[index]? = list[index]?.map (withNumber (number + index)) := by
  induction list generalizing number index with
  | nil => rfl
  | cons first list ih =>
    cases index with
    | zero => rfl
    | succ index =>
      rw [numbered, List.getElem?_cons_succ, ih, List.getElem?_cons_succ, Nat.add_right_comm,
        Nat.add_assoc]

theorem exists_withNumber (h : token ∈ numbered number list) :
    ∃ (index : Nat) (source : Token), list[index]? = some source ∧
      token = source.withNumber (number + index) := by
  obtain ⟨index, hi⟩ := List.mem_iff_getElem?.1 h
  rw [getElem?_numbered] at hi
  obtain ⟨source, hs, rfl⟩ := Option.map_eq_some_iff.1 hi
  exact ⟨index, source, hs, rfl⟩

theorem numbered_follow (h : pos ≤ number) (hl : last.range.start = number + list.length) :
    last.Follow pos (numbered number list) := by
  induction list generalizing number pos with
  | nil =>
    rw [numbered, Follow, hl]
    exact h
  | cons token list ih =>
    rw [List.length_cons] at hl
    exact ⟨h, Nat.lt_succ_self _, ih (Nat.le_refl _) (by omega)⟩

theorem over_numbered (h : Cursor.Over others last ⟨others, last, 0⟩) :
    Cursor.Over (numbered 1 others) (last.withNumber (1 + others.length))
      ⟨numbered 1 others, last.withNumber (1 + others.length), 0⟩ := by
  have hkind : ∀ token ∈ numbered 1 others, token.kind ≠ .endOfFile := by
    intro token hm
    obtain ⟨index, source, hs, rfl⟩ := exists_withNumber hm
    exact h.closed.ahead source (List.mem_of_getElem? hs)
  exact ⟨⟨h.closed.endOfFile, h.closed.text, hkind⟩,
    ⟨fun _ hm => hm, numbered_follow (Nat.zero_le _) rfl⟩, rfl⟩

end Token

/-- A range goes from the start of a numbered token to the end of one. -/
def Range.Numbered (count : Nat) (range : Range) : Prop :=
  ∃ i < count, ∃ j < count, range = ⟨i + 1, j + 2⟩

namespace Range.Numbered

variable {list others : List Token} {token last : Token} {range first final : Range} {count : Nat}

theorem of_mem (h : token ∈ Token.numbered 1 list) : token.range.Numbered list.length := by
  obtain ⟨index, source, hs, rfl⟩ := Token.exists_withNumber h
  have hlt := (List.getElem?_eq_some_iff.1 hs).1
  exact ⟨index, hlt, index, hlt, by rw [Token.withNumber, Nat.add_comm 1]⟩

theorem join (hf : first.Numbered count) (hl : final.Numbered count) :
    Range.Numbered count ⟨first.start, final.stop⟩ := by
  obtain ⟨i, hi, _, -, rfl⟩ := hf
  obtain ⟨_, -, j, hj, rfl⟩ := hl
  exact ⟨i, hi, j, hj, rfl⟩

theorem of_marks (h : range.Marks (Token.numbered 1 others) (last.withNumber (1 + others.length))) :
    range.Numbered (others ++ [last]).length := by
  have hmem : ∀ token ∈ Token.numbered 1 others ++ [last.withNumber (1 + others.length)],
      token.range.Numbered (others ++ [last]).length := by
    rw [← Token.numbered_append]
    exact fun token hm => of_mem hm
  rcases h with ⟨-, ⟨first, hf, hstart⟩, ⟨final, hl, hstop⟩⟩ | rfl
  · have hjoin := (hmem first (List.mem_append_left _ hf)).join
      (hmem final (List.mem_append_left _ hl))
    rw [hstart, hstop] at hjoin
    exact hjoin
  · exact hmem _ (List.mem_append_right _ (List.mem_singleton_self _))

end Range.Numbered

/-- Where numbered tokens stand in the source they come from. Number 0 is the start of the
source. -/
def Placement.ofTokens (list : List Token) : Placement where
  start number := (0 :: list.map (·.range.start)).getD number 0
  stop number := (0 :: 0 :: list.map (·.range.stop)).getD number 0
  start_zero := rfl
  stop_zero := rfl

/-- Two ranges go from the start of the token with one number to the end of that with another, each
in its own source. -/
def Range.Corresponds (list list' : List Token) (range range' : Range) : Prop :=
  ∃ (i j : Nat) (first last first' last' : Token), list[i]? = some first ∧ list[j]? = some last ∧
    list'[i]? = some first' ∧ list'[j]? = some last' ∧
    range = ⟨first.range.start, last.range.stop⟩ ∧
    range' = ⟨first'.range.start, last'.range.stop⟩

namespace Placement

variable {list list' : List Token} {token : Token} {range : Range} {index : Nat}

theorem start_ofTokens (h : list[index]? = some token) :
    (ofTokens list).start (index + 1) = token.range.start := by
  simp [ofTokens, h]

theorem stop_ofTokens (h : list[index]? = some token) :
    (ofTokens list).stop (index + 2) = token.range.stop := by
  simp [ofTokens, h]

theorem place_ofTokens {i j : Nat} {first last : Token} (hf : list[i]? = some first)
    (hl : list[j]? = some last) :
    (ofTokens list).place ⟨i + 1, j + 2⟩ = ⟨first.range.start, last.range.stop⟩ := by
  rw [place, start_ofTokens hf, stop_ofTokens hl]

/-- In two sources with as many tokens, a range over numbered tokens stands at ranges that
correspond. -/
theorem corresponds_place (h : range.Numbered list.length) (hlength : list.length = list'.length) :
    Range.Corresponds list list' ((ofTokens list).place range) ((ofTokens list').place range) := by
  obtain ⟨i, hi, j, hj, rfl⟩ := h
  have hfirst := List.getElem?_eq_getElem hi
  have hlast := List.getElem?_eq_getElem hj
  have hfirst' := List.getElem?_eq_getElem (hlength ▸ hi)
  have hlast' := List.getElem?_eq_getElem (hlength ▸ hj)
  exact ⟨i, j, _, _, _, _, hfirst, hlast, hfirst', hlast', place_ofTokens hfirst hlast,
    place_ofTokens hfirst' hlast'⟩

theorem start_strictMonoOn
    (h : list.Pairwise fun left right => left.range.start < right.range.start) :
    StrictMonoOn (ofTokens list).start (Set.Ioc 0 list.length) := by
  rintro i ⟨hi, hi'⟩ j ⟨hj, hj'⟩ hlt
  obtain ⟨i, rfl⟩ := Nat.exists_eq_succ_of_ne_zero (Nat.ne_of_gt hi)
  obtain ⟨j, rfl⟩ := Nat.exists_eq_succ_of_ne_zero (Nat.ne_of_gt hj)
  rw [start_ofTokens (List.getElem?_eq_getElem hi'), start_ofTokens (List.getElem?_eq_getElem hj')]
  exact List.pairwise_iff_getElem.1 h i j hi' hj' (Nat.lt_of_succ_lt_succ hlt)

end Placement

/-- Tokens are the numbered ones where they stand in the source. -/
theorem Token.relocate_numbered (list : List Token) :
    (numbered 1 list).map (·.relocate (Placement.ofTokens list).place) = list := by
  apply List.ext_getElem?
  intro index
  rw [List.getElem?_map, getElem?_numbered]
  cases hi : list[index]? with
  | none => rfl
  | some token =>
    have hplace := Placement.place_ofTokens hi hi
    rw [Option.map_some, Option.map_some, relocate, withNumber, Nat.add_comm 1, hplace]

end FlowLint
