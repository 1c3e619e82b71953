import FlowLint.Proofs.Token.Place

namespace FlowLint
set_option autoImplicit true

/-- The states of the lexer over a source: the byte it has come to, and the characters ahead. -/
inductive Lexing (source : List Char) : Nat → List Char → Prop
  | start : Lexing source 0 source
  | step (h : Lexing source offset (c :: cs)) (hs : Lexeme.split c cs = .ok (lexeme, rest)) :
      Lexing source (offset + byteLength lexeme.text) rest

namespace Lexeme

variable {c : Char} {cs body rest : List Char} {failure : Failure} {lexeme : Lexeme}

/-- Some characters were read from the front when a failure arose. -/
def Failure.Blames (failure : Failure) (source : List Char) : Prop :=
  failure.read <+: source ∧ failure.read ≠ []

theorem read_of_splitBody {read : List Char} (h : Quoted.splitBody quote cs = .error read) :
    read <+: cs := by
  fun_induction Quoted.splitBody quote cs generalizing read with
  | case1 | case2 =>
    cases h
    exact List.prefix_rfl
  | case3 => cases h
  | case4 c cs read' hr ih =>
    cases h
    simpa using ih hr
  | case5 => cases h
  | case6 c cs hn hs hq hl =>
    cases h
    simp
  | case7 => cases h
  | case8 c cs hn hs hq hl read' hr ih =>
    cases h
    simpa using ih hr

theorem blames_of_splitNumber (hc : startsNumber c cs = true)
    (h : splitNumber (c :: cs) = .error failure) : failure.Blames (c :: cs) := by
  have ht := NumberLiteral.split_text (c :: cs)
  have hn := NumberLiteral.split_ne_nil hc
  unfold splitNumber at h
  split at h
  · next marker rest hs =>
    cases h
    rw [hs] at ht
    exact ⟨⟨rest, ht⟩, List.cons_ne_nil _ _⟩
  · next literal rest _ hs =>
    split at h
    · cases h
      rw [hs] at ht hn
      exact ⟨⟨rest, ht⟩, hn⟩
    · cases h

theorem blames_of_splitToken (h : splitToken c cs = .error failure) : failure.Blames (c :: cs) := by
  unfold splitToken at h
  split at h
  · cases h
  · split at h
    · next hc => exact blames_of_splitNumber hc h
    · split at h
      · unfold splitString at h
        split at h
        · cases h
        · next hr =>
          cases h
          exact ⟨by simpa using read_of_splitBody hr, List.cons_ne_nil _ _⟩
      · unfold splitSymbol at h
        split at h
        · cases h
        · cases h
          exact ⟨by simp, List.cons_ne_nil _ _⟩

theorem blames_of_split (h : split c cs = .error failure) : failure.Blames (c :: cs) := by
  unfold split at h
  split at h
  · cases h
  · split at h
    · cases h
    · split at h
      · cases h
      · cases h
        exact ⟨List.prefix_rfl, List.cons_ne_nil _ _⟩
    · exact blames_of_splitToken h

end Lexeme

namespace Lexing

variable {source rest cs : List Char} {offset : Nat} {c : Char}

/-- The lexer stands between two characters of its source. -/
theorem exists_before (h : Lexing source offset rest) :
    ∃ before, source = before ++ rest ∧ offset = byteLength before := by
  induction h with
  | start => exact ⟨[], rfl, rfl⟩
  | step h hs ih =>
    obtain ⟨before, rfl, rfl⟩ := ih
    obtain ⟨ht, -⟩ := Lexeme.split_splitsOff hs
    refine ⟨before ++ _, ?_, (byteLength_append ..).symm⟩
    rw [← ht, List.append_assoc]

theorem cuts (h : Lexing source offset rest) (hp : text <+: rest) :
    Range.Cuts ⟨offset, offset + byteLength text⟩ source text := by
  obtain ⟨before, rfl, rfl⟩ := h.exists_before
  obtain ⟨after, rfl⟩ := hp
  exact ⟨before, after, by rw [List.append_assoc], rfl, (byteLength_append ..).symm⟩

/-- A step takes the lexer forward over the text of a lexeme. -/
theorem step_forward (h : Lexing source offset (c :: cs))
    (hs : Lexeme.split c cs = .ok (lexeme, rest)) :
    0 < byteLength lexeme.text ∧
      Range.Cuts ⟨offset, offset + byteLength lexeme.text⟩ source lexeme.text := by
  obtain ⟨ht, hne⟩ := Lexeme.split_splitsOff hs
  exact ⟨byteLength_pos hne, h.cuts ⟨rest, ht⟩⟩

theorem of_error (h : Lexing source offset cs) (he : lexemes offset cs = .error error) :
    ∃ offset c cs failure, Lexing source offset (c :: cs) ∧ Lexeme.split c cs = .error failure ∧
      error = ⟨failure.cause, offset, offset + byteLength failure.read⟩ := by
  fun_induction lexemes offset cs with
  | case1 => cases he
  | case2 offset c cs failure hs =>
    cases he
    exact ⟨offset, c, cs, failure, h, hs, rfl⟩
  | case3 offset c cs lexeme rest hs error' hl ih =>
    cases he
    exact ih (h.step hs) hl
  | case4 => cases he

end Lexing

namespace Lexeme

/-- The text behind an opening quote ends with the closing one. -/
theorem exists_quoted_of_splitBody (h : Quoted.splitBody quote cs = .ok (body, rest)) :
    ∃ inner, body = inner ++ [quote] := by
  fun_induction Quoted.splitBody quote cs generalizing body rest with
  | case1 | case2 => cases h
  | case3 c cs body rest hs ih =>
    cases h
    obtain ⟨inner, rfl⟩ := ih hs
    exact ⟨_ :: _ :: inner, rfl⟩
  | case4 => cases h
  | case5 cs hn hs =>
    cases h
    exact ⟨[], rfl⟩
  | case6 => cases h
  | case7 c cs hn hs hq hl body rest hr ih =>
    cases h
    obtain ⟨inner, rfl⟩ := ih hr
    exact ⟨c :: inner, rfl⟩
  | case8 => cases h

theorem IsToken.exists_splitBody {text : List Char} (h : IsToken .string text) :
    ∃ quote cs body rest, (quote = '"' ∨ quote = '\'') ∧
      Quoted.splitBody quote cs = .ok (body, rest) ∧ text = quote :: body := by
  obtain ⟨c, cs, rest, hs⟩ := h
  obtain ⟨-, -, h⟩ := splitToken_of_split hs
  unfold splitToken at h
  split at h
  · simp only [splitName, Except.ok.injEq, Prod.mk.injEq, token.injEq] at h
    obtain ⟨⟨hk, -⟩, -⟩ := h
    split at hk <;> cases hk
  · split at h
    · unfold splitNumber at h
      split at h
      · cases h
      · split at h <;> cases h
    · split at h
      · next hquote =>
        unfold splitString at h
        split at h
        · next hb =>
          cases h
          exact ⟨c, cs, _, _, hquote, hb, rfl⟩
        · cases h
      · unfold splitSymbol at h
        split at h <;> cases h

/-- A string stands between two quotes of one byte each. -/
theorem IsToken.quoted {text : List Char} (h : IsToken .string text) :
    ∃ quote inner, (quote = '"' ∨ quote = '\'') ∧ text = quote :: (inner ++ [quote]) := by
  obtain ⟨quote, cs, body, rest, hquote, hb, rfl⟩ := h.exists_splitBody
  obtain ⟨inner, rfl⟩ := exists_quoted_of_splitBody hb
  exact ⟨quote, inner, hquote, rfl⟩

end Lexeme

/-- What the lexer fails at is some text of the source. -/
theorem within_of_lexemes_error {source : List Char} (h : lexemes 0 source = .error error) :
    error.range.start < error.range.stop ∧ ∃ text, error.range.Cuts source text := by
  obtain ⟨offset, c, cs, failure, hlexing, hs, rfl⟩ := Lexing.of_error .start h
  obtain ⟨hp, hne⟩ := Lexeme.blames_of_split hs
  exact ⟨Nat.lt_add_of_pos_right (byteLength_pos hne), _, hlexing.cuts hp⟩

theorem lexemes_of_tokens_error (hs : byteLength source.toList < sizeLimit)
    (h : tokens source = .error error) : lexemes 0 source.toList = .error error := by
  rw [tokens_of_lt hs] at h
  cases hl : lexemes 0 source.toList with
  | error first =>
    rw [hl] at h
    cases h
    rfl
  | ok found =>
    rw [hl] at h
    cases h

/-- A source is turned away for its size exactly where it reaches the limit. -/
theorem tokens_eq_sourceTooLong_iff :
    tokens source = .error ⟨.sourceTooLong, ⟨0, 0⟩⟩ ↔ sizeLimit ≤ byteLength source.toList := by
  refine ⟨fun h => ?_, tokens_of_le⟩
  by_contra hs
  -- The lexer blames some text, and this range is empty.
  exact Nat.lt_irrefl 0
    (within_of_lexemes_error (lexemes_of_tokens_error (Nat.not_le.1 hs) h)).1

theorem cuts_of_tokens_error (h : tokens source = .error error) :
    ∃ text, error.range.Cuts source.toList text := by
  rcases Nat.lt_or_ge (byteLength source.toList) sizeLimit with hs | hs
  · exact (within_of_lexemes_error (lexemes_of_tokens_error hs h)).2
  · cases (tokens_of_le hs).symm.trans h
    exact ⟨[], [], source.toList, rfl, rfl, rfl⟩

end FlowLint
