import FlowLint.Literal.Number
import FlowLint.Literal.Quoted
import FlowLint.ParseError

/-!
Lexemes: a source is a sequence of blanks, comments and tokens, each of them some text. Reading one
lexeme splits the source behind it and loses no character.
-/
namespace FlowLint

inductive Lexeme
  | trivia (text : List Char)
  | token (kind : TokenKind) (text : List Char)
deriving DecidableEq, Repr

namespace Lexeme

def text : Lexeme → List Char
  | trivia text => text
  | token _ text => text

/-- A cause with the characters that were read when it arose. -/
structure Failure where
  cause : ParseError.Cause
  read : List Char

/-- Splits a text behind the first `*/`. -/
def splitComment : List Char → Option (List Char × List Char)
  | [] => none
  | '*' :: '/' :: cs => some (['*', '/'], cs)
  | c :: cs => (splitComment cs).map fun (body, rest) => (c :: body, rest)

def splitName (cs : List Char) : Lexeme × List Char :=
  let word := cs.takeWhile Character.isNamePart
  let kind := match Keyword.ofWord? word with
    | some keyword => .keyword keyword
    | none => .name
  (token kind word, cs.dropWhile Character.isNamePart)

def splitNumber (cs : List Char) : Except Failure (Lexeme × List Char) :=
  match NumberLiteral.split cs with
  | (.hexadecimal marker [], _) => .error ⟨.missingHexDigits, ['0', marker]⟩
  | (literal, rest) =>
    if rest.head?.any Character.isNameStart then .error ⟨.nameAfterNumber, literal.text⟩
    else .ok (token .number literal.text, rest)

def splitString (quote : Char) (cs : List Char) : Except Failure (Lexeme × List Char) :=
  match Quoted.splitBody quote cs with
  | .ok (body, rest) => .ok (token .string (quote :: body), rest)
  | .error read => .error ⟨.unterminatedString, quote :: read⟩

def splitSymbol (c : Char) (cs : List Char) : Except Failure (Lexeme × List Char) :=
  match Symbol.longest? (c :: cs) with
  | some symbol =>
    let text := symbol.text.toList
    .ok (token (.symbol symbol) text, (c :: cs).drop text.length)
  | none => .error ⟨.unexpectedCharacter c, [c]⟩

def splitToken (c : Char) (cs : List Char) : Except Failure (Lexeme × List Char) :=
  if Character.isNameStart c then .ok (splitName (c :: cs))
  else if startsNumber c cs then splitNumber (c :: cs)
  else if c = '"' ∨ c = '\'' then splitString c cs
  else splitSymbol c cs

/-- Splits the lexeme that starts with `c` off `c :: cs`. -/
def split (c : Char) (cs : List Char) : Except Failure (Lexeme × List Char) :=
  if Character.isBlank c then .ok (trivia [c], cs)
  else
    match c, cs with
    | '/', '/' :: cs =>
      .ok (trivia ('/' :: '/' :: cs.takeWhile (!Character.isLineEnd ·)),
        cs.dropWhile (!Character.isLineEnd ·))
    | '/', '*' :: cs =>
      match splitComment cs with
      | some (body, rest) => .ok (trivia ('/' :: '*' :: body), rest)
      | none => .error ⟨.unterminatedComment, '/' :: '*' :: cs⟩
    | c, cs => splitToken c cs

theorem splitComment_text {cs body rest : List Char} (h : splitComment cs = some (body, rest)) :
    body ++ rest = cs := by
  fun_induction splitComment cs generalizing body rest with
  | case1 => simp at h
  | case2 cs =>
    cases h
    rfl
  | case3 c cs _ ih =>
    obtain ⟨⟨b, r⟩, hb, he⟩ := Option.map_eq_some_iff.1 h
    obtain ⟨rfl, rfl⟩ := Prod.mk.inj he
    simp [ih hb]

/-- A lexeme was read from the front: its text and the rest make up what was there, and the text
is not empty. -/
def SplitsOff (source : List Char) (result : Lexeme × List Char) : Prop :=
  result.1.text ++ result.2 = source ∧ result.1.text ≠ []

theorem splitName_splitsOff {c : Char} {cs : List Char} (h : Character.isNameStart c = true) :
    SplitsOff (c :: cs) (splitName (c :: cs)) := by
  constructor
  · exact List.takeWhile_append_dropWhile
  · simp [splitName, text, Character.isNamePart_of_isNameStart h]

theorem splitNumber_splitsOff {c : Char} {cs : List Char} {result : Lexeme × List Char}
    (hc : startsNumber c cs = true) (h : splitNumber (c :: cs) = .ok result) :
    SplitsOff (c :: cs) result := by
  have ht := NumberLiteral.split_text (c :: cs)
  unfold splitNumber at h
  split at h
  · cases h
  · next literal rest _ hs =>
    rw [hs] at ht
    split at h
    · cases h
    · cases h
      have hn := NumberLiteral.split_ne_nil hc
      rw [hs] at hn
      exact ⟨ht, hn⟩

theorem splitString_splitsOff {quote : Char} {cs : List Char} {result : Lexeme × List Char}
    (h : splitString quote cs = .ok result) : SplitsOff (quote :: cs) result := by
  unfold splitString at h
  split at h
  · next body rest hb =>
    cases h
    simp [SplitsOff, text, Quoted.splitBody_text hb]
  · cases h

theorem splitSymbol_splitsOff {c : Char} {cs : List Char} {result : Lexeme × List Char}
    (h : splitSymbol c cs = .ok result) : SplitsOff (c :: cs) result := by
  unfold splitSymbol at h
  split at h
  · next symbol hs =>
    cases h
    refine ⟨?_, symbol.text_ne_nil⟩
    exact List.prefix_iff_eq_append.1 (Symbol.text_prefix_of_longest? hs)
  · cases h

theorem splitToken_splitsOff {c : Char} {cs : List Char} {result : Lexeme × List Char}
    (h : splitToken c cs = .ok result) : SplitsOff (c :: cs) result := by
  unfold splitToken at h
  split at h
  · next hc =>
    cases h
    exact splitName_splitsOff hc
  · split at h
    · next hc => exact splitNumber_splitsOff hc h
    · split at h
      · exact splitString_splitsOff h
      · exact splitSymbol_splitsOff h

theorem split_splitsOff {c : Char} {cs : List Char} {result : Lexeme × List Char}
    (h : split c cs = .ok result) : SplitsOff (c :: cs) result := by
  unfold split at h
  split at h
  · cases h
    simp [SplitsOff, text]
  · split at h
    · cases h
      simp [SplitsOff, text]
    · split at h
      · next body rest hb =>
        cases h
        simp [SplitsOff, text, splitComment_text hb]
      · cases h
    · exact splitToken_splitsOff h

theorem length_lt_of_split {c : Char} {cs : List Char} {lexeme : Lexeme} {rest : List Char}
    (h : split c cs = .ok (lexeme, rest)) : rest.length < (c :: cs).length := by
  obtain ⟨ht, hn⟩ := split_splitsOff h
  rw [← ht, List.length_append]
  have := List.length_pos_iff.2 hn
  dsimp only at *
  omega

end Lexeme

/-- The lexemes of a text that starts at byte `offset`. -/
def lexemes (offset : Nat) : List Char → Except ParseError (List Lexeme)
  | [] => .ok []
  | c :: cs =>
    match _h : Lexeme.split c cs with
    | .error failure =>
      .error ⟨failure.cause, offset, offset + byteLength failure.read⟩
    | .ok (lexeme, rest) =>
      match lexemes (offset + byteLength lexeme.text) rest with
      | .error error => .error error
      | .ok others => .ok (lexeme :: others)
termination_by cs => cs.length
decreasing_by exact Lexeme.length_lt_of_split _h

end FlowLint
