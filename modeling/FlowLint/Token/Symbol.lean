namespace FlowLint

inductive Symbol
  | leftParen | rightParen | leftBrace | rightBrace | leftBracket | rightBracket
  | semicolon | comma | dot | colon | question | coalesce
  | assign | equal | strictEqual | notEqual | strictNotEqual
  | less | lessEqual | greater | greaterEqual
  | shiftLeft | shiftRight | shiftRightUnsigned
  | plus | minus | star | power | slash | percent | increment | decrement
  | bang | tilde | bitAnd | bitOr | bitXor | and | or
  | plusAssign | minusAssign | starAssign | slashAssign | percentAssign
deriving DecidableEq, Repr, Inhabited

namespace Symbol

def text : Symbol → String
  | leftParen => "("
  | rightParen => ")"
  | leftBrace => "\x7b"
  | rightBrace => "\x7d"
  | leftBracket => "["
  | rightBracket => "]"
  | semicolon => ";"
  | comma => ","
  | dot => "."
  | colon => ":"
  | question => "?"
  | coalesce => "??"
  | assign => "="
  | equal => "=="
  | strictEqual => "==="
  | notEqual => "!="
  | strictNotEqual => "!=="
  | less => "<"
  | lessEqual => "<="
  | greater => ">"
  | greaterEqual => ">="
  | shiftLeft => "<<"
  | shiftRight => ">>"
  | shiftRightUnsigned => ">>>"
  | plus => "+"
  | minus => "-"
  | star => "*"
  | power => "**"
  | slash => "/"
  | percent => "%"
  | increment => "++"
  | decrement => "--"
  | bang => "!"
  | tilde => "~"
  | bitAnd => "&"
  | bitOr => "|"
  | bitXor => "^"
  | and => "&&"
  | or => "||"
  | plusAssign => "+="
  | minusAssign => "-="
  | starAssign => "*="
  | slashAssign => "/="
  | percentAssign => "%="

/-- Every symbol, longer texts first. -/
def all : List Symbol :=
  [strictEqual, strictNotEqual, shiftRightUnsigned,
   coalesce, equal, notEqual, lessEqual, greaterEqual, shiftLeft, shiftRight, power,
   increment, decrement, and, or, plusAssign, minusAssign, starAssign, slashAssign, percentAssign,
   leftParen, rightParen, leftBrace, rightBrace, leftBracket, rightBracket, semicolon, comma, dot,
   colon, question, assign, less, greater, plus, minus, star, slash, percent, bang, tilde,
   bitAnd, bitOr, bitXor]

/-- The longest symbol the characters start with. -/
def longest? (cs : List Char) : Option Symbol :=
  all.find? fun symbol => symbol.text.toList.isPrefixOf cs

theorem mem_all (symbol : Symbol) : symbol ∈ all := by
  cases symbol <;> decide

theorem text_ne_nil (symbol : Symbol) : symbol.text.toList ≠ [] := by
  cases symbol <;> decide

theorem text_prefix_of_longest? {cs : List Char} {symbol : Symbol} (h : longest? cs = some symbol) :
    symbol.text.toList <+: cs := by
  unfold longest? at h
  have hp := List.find?_some h
  exact List.isPrefixOf_iff_prefix.1 hp

end Symbol

end FlowLint
