import FlowLint.Proofs.Grammar.Numbered
import FlowLint.Proofs.Literal.Quoted

namespace FlowLint
set_option autoImplicit true

namespace Token

/-- What stands in front of a token that is written down: the end of a line where one was, and a
blank elsewhere. -/
def separator (token : Token) : Char :=
  if token.newlineBefore then '\n' else ' '

def spaced (token : Token) : List Char :=
  token.separator :: token.text.toList

theorem isBlank_separator (token : Token) : Character.isBlank token.separator = true := by
  unfold separator
  split <;> decide

theorem isLineEnd_separator (token : Token) :
    Character.isLineEnd token.separator = token.newlineBefore := by
  unfold separator
  cases token.newlineBefore <;> decide

/-- Tokens that are written down are apart from what stands in front of them. -/
theorem apart_spaced (list : List Token) : Apart (list.flatMap spaced) := by
  cases list with
  | nil => exact Apart.nil
  | cons token list =>
    rintro c ⟨⟩
    unfold separator
    cases token.newlineBefore <;> simp

end Token

/-- Each token behind a separator. -/
def respaced (list : List Token) : String :=
  String.ofList (list.flatMap Token.spaced)

variable {others : List Token} {last : Token}

/-- A separator and the text of a token are read as trivia and that token. -/
theorem lexemes_token_spaced {token : Token} (h : Lexeme.IsToken token.kind token.text.toList)
    (hr : Apart rest) :
    lexemes offset (token.spaced ++ rest) =
      (lexemes (offset + byteLength [token.separator] + byteLength token.text.toList) rest).map
        fun found => .trivia [token.separator] :: .token token.kind token.text.toList :: found := by
  rw [Token.spaced, List.cons_append, lexemes_blank token.isBlank_separator, lexemes_token h hr]
  cases lexemes (offset + byteLength [token.separator] + byteLength token.text.toList) rest <;> rfl

/-- The lexemes of tokens that are written down, wherever they start, are placed as those tokens. -/
theorem lexemes_flatMap_spaced
    (hm : ∀ token ∈ others, Lexeme.IsToken token.kind token.text.toList)
    (hk : last.kind = .endOfFile) (ht : last.text = "") :
    ∃ found, lexemes offset ((others ++ [last]).flatMap Token.spaced) = .ok found ∧
      (Lexeme.placed offset false found).map Token.face = (others ++ [last]).map Token.face := by
  induction others generalizing offset with
  | nil =>
    refine ⟨[.trivia [last.separator]], ?_, ?_⟩
    · rw [List.nil_append, List.flatMap_singleton, Token.spaced, ht, String.toList_empty,
        lexemes_blank last.isBlank_separator, lexemes_nil]
      rfl
    · simp [Lexeme.placed, Token.face, hk, ht, last.isLineEnd_separator]
  | cons token others ih =>
    obtain ⟨htoken, hm⟩ := List.forall_mem_cons.1 hm
    obtain ⟨found, hl, hf⟩ :=
      @ih (offset + byteLength [token.separator] + byteLength token.text.toList) hm
    refine ⟨.trivia [token.separator] :: .token token.kind token.text.toList :: found, ?_, ?_⟩
    · rw [List.cons_append, List.flatMap_cons,
        lexemes_token_spaced htoken (Token.apart_spaced _), hl]
      rfl
    · simp only [Lexeme.placed, List.any_cons, List.any_nil, Bool.or_false, Bool.false_or,
        List.cons_append, List.map_cons, hf]
      simp [Token.face, token.isLineEnd_separator]

/-- The tokens of a source are read again, with the same kinds, texts and line ends in front of
them, where each of them is written down behind a line feed if a line ended in front of it, and
behind a blank if not, as long as the text fits into a source. -/
theorem tokens_respaced (h : tokens source = .ok list)
    (hsize : byteLength (respaced list).toList < sizeLimit) :
    ∃ list', tokens (respaced list) = .ok list' ∧ list'.map Token.face = list.map Token.face := by
  obtain ⟨others, last, rfl, hk, ht, hm⟩ := tokens_eq_append h
  obtain ⟨found, hl, hf⟩ := lexemes_flatMap_spaced hm hk ht
  rw [← String.toList_ofList (l := (others ++ [last]).flatMap Token.spaced)] at hl
  exact ⟨Lexeme.placed 0 false found, tokens_of_lexemes hsize hl, hf⟩

theorem byteLength_respaced_cons (token : Token) (list : List Token) :
    byteLength (respaced (token :: list)).toList =
      byteLength token.text.toList + 1 + byteLength (respaced list).toList := by
  have hseparator : token.separator.utf8Size = 1 := by
    unfold Token.separator
    split <;> rfl
  simp only [respaced, String.toList_ofList]
  rw [List.flatMap_cons, byteLength_append, Token.spaced, byteLength, hseparator, Nat.add_comm 1]

theorem respaced_letters {n : Nat} (h : n + 2 < sizeLimit) (hr : sizeLimit ≤ n + 4) :
    ∃ list, tokens (Quoted.literal '\'' (Quoted.letters n)) = .ok list ∧
      tokens (respaced list) = .error ⟨.sourceTooLong, ⟨0, 0⟩⟩ := by
  have hlength := Quoted.byteLength_literal_letters n
  refine ⟨_, tokens_literal (.inr rfl) _ (hlength ▸ h), tokens_of_le ?_⟩
  rw [byteLength_respaced_cons, byteLength_respaced_cons, hlength]
  omega

/-- A string that leaves no room in its source for the two blanks that respacing adds. -/
theorem tokens_respaced_overlong :
    ∃ list, tokens (Quoted.literal '\'' (Quoted.letters (sizeLimit - 3))) = .ok list ∧
      tokens (respaced list) = .error ⟨.sourceTooLong, ⟨0, 0⟩⟩ :=
  respaced_letters (by decide) (by decide)

/-- Numbers that end where a dot or a sign could go on with them, symbols that are longer than
others, comments, a keyword inside a name, and a string with a line end behind a backslash and the
other quote. -/
def crowdedSource : String :=
  "1.5.x>>>=+.5e-3+inner/**/in// c\r\n'a\\\n\"'"

theorem tokens_respaced_crowded :
    ∃ list list', tokens crowdedSource = .ok list ∧ tokens (respaced list) = .ok list' ∧
      list'.map Token.face = list.map Token.face ∧
      list.map Token.text =
        ["1.5", ".", "x", ">>>", "=", "+", ".5e-3", "+", "inner", "in", "'a\\\n\"'", ""] := by
  obtain ⟨list, hl⟩ : ∃ list, tokens crowdedSource = .ok list :=
    exists_ok_of_isOk (by decide +kernel)
  have htexts : (tokens crowdedSource).toOption.map (·.map Token.text) =
      some ["1.5", ".", "x", ">>>", "=", "+", ".5e-3", "+", "inner", "in", "'a\\\n\"'", ""] := by
    decide +kernel
  rw [hl] at htexts
  have hsize : (tokens crowdedSource).toOption.all fun list =>
      byteLength (respaced list).toList < sizeLimit := by
    decide +kernel
  rw [hl] at hsize
  obtain ⟨list', hl', hf⟩ := tokens_respaced hl (of_decide_eq_true hsize)
  exact ⟨list, list', hl, hl', hf, Option.some.inj htexts⟩

end FlowLint
