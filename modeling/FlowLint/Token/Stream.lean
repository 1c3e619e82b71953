import FlowLint.Token.Lexeme

namespace FlowLint

namespace Lexeme

/-- The tokens among lexemes that start at byte `offset`, closed by the end of the file. `newline`
says whether a line has ended since the token before. -/
def placed (offset : Nat) (newline : Bool) : List Lexeme → List Token
  | [] => [⟨.endOfFile, "", ⟨offset, offset⟩, newline⟩]
  | trivia text :: lexemes =>
    placed (offset + byteLength text) (newline || text.any Character.isLineEnd) lexemes
  | token kind text :: lexemes =>
    let stop := offset + byteLength text
    ⟨kind, String.ofList text, ⟨offset, stop⟩, newline⟩ :: placed stop false lexemes

theorem placed_ne_nil (offset : Nat) (newline : Bool) (lexemes : List Lexeme) :
    placed offset newline lexemes ≠ [] := by
  fun_induction placed offset newline lexemes <;> simp_all

end Lexeme

/-- A source has fewer bytes than this, so that a number of 32 bits can tell each place in it. -/
def sizeLimit : Nat :=
  UInt32.size

/-- The tokens of a source, the last of them the end of the file. -/
def tokens (source : String) : Except ParseError (List Token) :=
  if sizeLimit ≤ byteLength source.toList then .error ⟨.sourceTooLong, ⟨0, 0⟩⟩
  else (lexemes 0 source.toList).map (Lexeme.placed 0 false)

end FlowLint
