import FlowLint.Proofs.Success
import FlowLint.Proofs.Token.Lexical
import FlowLint.Token.Stream

namespace FlowLint
set_option autoImplicit true

variable {cs text rest : List Char} {kind : TokenKind}

theorem lexemes_nil : lexemes offset [] = .ok [] := by
  unfold lexemes
  rfl

theorem lexemes_cons {lexeme : Lexeme} (h : Lexeme.split c cs = .ok (lexeme, rest)) :
    lexemes offset (c :: cs) =
      (lexemes (offset + byteLength lexeme.text) rest).map (lexeme :: ·) := by
  conv_lhs => unfold lexemes
  split
  · next hs => cases h.symm.trans hs
  · next hs =>
    cases h.symm.trans hs
    cases lexemes (offset + byteLength lexeme.text) rest <;> rfl

theorem lexemes_token (h : Lexeme.IsToken kind text) (hr : Apart rest) :
    lexemes offset (text ++ rest) =
      (lexemes (offset + byteLength text) rest).map (.token kind text :: ·) := by
  obtain ⟨c, t, rfl, hs⟩ := h.split_append hr
  exact lexemes_cons hs

theorem lexemes_blank (hb : Character.isBlank c = true) :
    lexemes offset (c :: cs) =
      (lexemes (offset + byteLength [c]) cs).map (.trivia [c] :: ·) :=
  lexemes_cons (if_pos hb)

theorem isToken_of_mem_lexemes (h : lexemes offset cs = .ok others)
    (hm : .token kind text ∈ others) : Lexeme.IsToken kind text := by
  fun_induction lexemes offset cs generalizing others with
  | case1 =>
    cases h
    cases hm
  | case2 => cases h
  | case3 => cases h
  | case4 offset c cs lexeme rest hs others hl ih =>
    cases h
    rcases List.mem_cons.1 hm with rfl | hm
    · exact ⟨c, cs, rest, hs⟩
    · exact ih hl hm

theorem Lexeme.placed_eq_append (offset : Nat) (newline : Bool) (lexemes : List Lexeme) :
    ∃ others last, placed offset newline lexemes = others ++ [last] ∧
      last.kind = .endOfFile ∧ last.text = "" ∧
      ∀ token ∈ others, .token token.kind token.text.toList ∈ lexemes := by
  fun_induction placed offset newline lexemes with
  | case1 offset newline => exact ⟨[], _, rfl, rfl, rfl, List.forall_mem_nil _⟩
  | case2 offset newline text lexemes ih =>
    obtain ⟨others, last, he, hk, ht, hm⟩ := ih
    exact ⟨others, last, he, hk, ht, fun token h => List.mem_cons_of_mem _ (hm token h)⟩
  | case3 offset newline kind text lexemes stop ih =>
    obtain ⟨others, last, he, hk, ht, hm⟩ := ih
    refine ⟨_ :: others, last, congrArg _ he, hk, ht, ?_⟩
    intro token h
    rcases List.mem_cons.1 h with rfl | h
    · simp
    · exact List.mem_cons_of_mem _ (hm token h)

theorem tokens_of_lt (h : byteLength source.toList < sizeLimit) :
    tokens source = (lexemes 0 source.toList).map (Lexeme.placed 0 false) :=
  if_neg (Nat.not_le.2 h)

theorem tokens_of_le (h : sizeLimit ≤ byteLength source.toList) :
    tokens source = .error ⟨.sourceTooLong, ⟨0, 0⟩⟩ :=
  if_pos h

theorem lt_sizeLimit_of_tokens (h : tokens source = .ok list) :
    byteLength source.toList < sizeLimit := by
  by_contra hs
  cases (tokens_of_le (Nat.not_lt.1 hs)).symm.trans h

theorem tokens_of_lexemes (hs : byteLength source.toList < sizeLimit)
    (hl : lexemes 0 source.toList = .ok found) :
    tokens source = .ok (Lexeme.placed 0 false found) := by
  rw [tokens_of_lt hs, hl]
  rfl

theorem exists_lexemes_of_tokens (h : tokens source = .ok list) :
    ∃ found, lexemes 0 source.toList = .ok found ∧ Lexeme.placed 0 false found = list := by
  rw [tokens_of_lt (lt_sizeLimit_of_tokens h)] at h
  cases hl : lexemes 0 source.toList with
  | error error =>
    rw [hl] at h
    cases h
  | ok found =>
    rw [hl] at h
    exact ⟨found, rfl, Except.ok.inj h⟩

/-- The tokens of a source are texts that the lexer reads, and the end of the file. -/
theorem tokens_eq_append (h : tokens source = .ok list) :
    ∃ others last, list = others ++ [last] ∧ last.kind = .endOfFile ∧ last.text = "" ∧
      ∀ token ∈ others, Lexeme.IsToken token.kind token.text.toList := by
  obtain ⟨found, hl, rfl⟩ := exists_lexemes_of_tokens h
  obtain ⟨others, last, he, hk, ht, hm⟩ := Lexeme.placed_eq_append 0 false found
  exact ⟨others, last, he, hk, ht, fun token h => isToken_of_mem_lexemes hl (hm token h)⟩

end FlowLint
