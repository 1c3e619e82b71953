import FlowLint.Token.Basic

namespace FlowLint

/-- What the parser was looking for. -/
inductive Expected
  | symbol (symbol : Symbol)
  | keyword (keyword : Keyword)
  | identifier
  | expression
  | handler
  | clause
deriving DecidableEq, Repr

namespace Expected

def describe : Expected → String
  | symbol s => s!"`{s.text}`"
  | keyword k => s!"`{k.text}`"
  | identifier => "an identifier"
  | expression => "an expression"
  | handler => "`catch` or `finally`"
  | clause => "`case`, `default` or `\x7d`"

end Expected

namespace ParseError

inductive Cause
  | sourceTooLong
  | unterminatedComment
  | unterminatedString
  | missingHexDigits
  | nameAfterNumber
  | unexpectedCharacter (c : Char)
  | unexpectedToken (expected : Expected) (found : Option String)
  | lineBreakAfterThrow
  | invalidAssignmentTarget
  | missingPropertyName
  | invalidNumber (text : String)
deriving DecidableEq, Repr

def Cause.message : Cause → String
  | sourceTooLong => "source text exceeds 4GiB"
  | unterminatedComment => "unterminated block comment"
  | unterminatedString => "unterminated string literal"
  | missingHexDigits => "expected hexadecimal digits"
  | nameAfterNumber => "identifier starts immediately after numeric literal"
  | unexpectedCharacter c => s!"unexpected character `{c}`"
  | unexpectedToken expected none => s!"expected {expected.describe}, found end of file"
  | unexpectedToken expected (some text) => s!"expected {expected.describe}, found `{text}`"
  | lineBreakAfterThrow => "line break is not allowed after `throw`"
  | invalidAssignmentTarget => "invalid assignment target"
  | missingPropertyName => "expected a property name"
  | invalidNumber text => s!"invalid number literal `{text}`"

end ParseError

structure ParseError where
  cause : ParseError.Cause
  range : Range
deriving DecidableEq, Repr

namespace ParseError

def message (error : ParseError) : String :=
  error.cause.message

def describe (error : ParseError) : String :=
  s!"{error.message} at byte offset {error.range.start}"

end ParseError

end FlowLint
