import FlowLint.Source.Range
import FlowLint.Token.Keyword
import FlowLint.Token.Symbol

namespace FlowLint

inductive TokenKind
  | name
  | number
  | string
  | keyword (keyword : Keyword)
  | symbol (symbol : Symbol)
  | endOfFile
deriving DecidableEq, Repr, Inhabited

/-- A token with its text, its place, and whether a line ends between it and the one before. -/
structure Token where
  kind : TokenKind
  text : String
  range : Range
  newlineBefore : Bool
deriving DecidableEq, Repr, Inhabited

end FlowLint
