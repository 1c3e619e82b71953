import FlowLint.ParseError
import FlowLint.Tree.Basic

namespace FlowLint

/-- A place in a list of tokens: the tokens ahead, the end of the file behind them, and where the
token read last ends. -/
structure Cursor where
  ahead : List Token
  endOfFile : Token
  stop : Nat

namespace Cursor

/-- The cursor before a list of tokens that ends with the end of the file. -/
def ofTokens (tokens : List Token) : Cursor :=
  ⟨tokens.dropLast, tokens.getLastD default, 0⟩

def current (cursor : Cursor) : Token :=
  cursor.ahead.headD cursor.endOfFile

def nextKind (cursor : Cursor) : TokenKind :=
  (cursor.ahead.tail.headD cursor.endOfFile).kind

/-- The cursor behind the current token; nothing is behind the end of the file. -/
def advance (cursor : Cursor) : Cursor :=
  match cursor.ahead with
  | [] => cursor
  | token :: ahead => { cursor with ahead, stop := token.range.stop }

end Cursor

abbrev TokenReader := StateT Cursor (Except ParseError)

namespace TokenReader

def peek : TokenReader Token :=
  return (← get).current

def bump : TokenReader Token := do
  let cursor ← get
  set cursor.advance
  return cursor.current

def isAt (kind : TokenKind) : TokenReader Bool :=
  return (← peek).kind == kind

/-- Reads the current token if it is of a kind, and says whether it was. -/
def eat (kind : TokenKind) : TokenReader Bool := do
  if ← isAt kind then
    let _ ← bump
    return true
  else
    return false

def unexpected {α : Type} (expected : Expected) : TokenReader α := do
  let token ← peek
  let found := if token.kind = .endOfFile then none else some token.text
  throw ⟨.unexpectedToken expected found, token.range⟩

def expect (kind : TokenKind) (expected : Expected) : TokenReader Token := do
  if ← isAt kind then bump else unexpected expected

def symbol (symbol : Symbol) : TokenReader Token :=
  expect (.symbol symbol) (.symbol symbol)

def keyword (keyword : Keyword) : TokenReader Token :=
  expect (.keyword keyword) (.keyword keyword)

def identifier : TokenReader Identifier := do
  let token ← expect .name .identifier
  return ⟨token.text, token.range⟩

/-- The range from `start` to the end of the token read last. -/
def rangeFrom (start : Nat) : TokenReader Range :=
  return ⟨start, (← get).stop⟩

/-- Whether a statement may end in front of this token without a semicolon. -/
def impliesEnd (token : Token) : Bool :=
  token.kind == .symbol .rightBrace || token.kind == .endOfFile || token.newlineBefore

/-- Whether a statement ends here, at a semicolon or without one. -/
def endsStatement (token : Token) : Bool :=
  token.kind == .symbol .semicolon || impliesEnd token

/-- Reads the end of a statement: a semicolon, or nothing where the end is implied. -/
def semicolon : TokenReader Unit := do
  if ← eat (.symbol .semicolon) then
    return
  else if impliesEnd (← peek) then
    return
  else
    unexpected (.symbol .semicolon)

end TokenReader

end FlowLint
