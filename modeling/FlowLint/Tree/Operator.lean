namespace FlowLint

inductive UnaryOp
  | not | bitNot | plus | minus | typeOf | void | delete
deriving DecidableEq, Repr

namespace UnaryOp

def text : UnaryOp → String
  | not => "!"
  | bitNot => "~"
  | plus => "+"
  | minus => "-"
  | typeOf => "typeof"
  | void => "void"
  | delete => "delete"

end UnaryOp

inductive UpdateOp
  | increment | decrement
deriving DecidableEq, Repr

namespace UpdateOp

def text : UpdateOp → String
  | increment => "++"
  | decrement => "--"

end UpdateOp

/-- Whether an update operator stands before or after its target. -/
inductive Fixity
  | before | after
deriving DecidableEq, Repr

inductive BinaryOp
  | coalesce | or | and | bitOr | bitXor | bitAnd
  | equal | notEqual | strictEqual | strictNotEqual
  | less | lessEqual | greater | greaterEqual | instanceOf | isIn
  | shiftLeft | shiftRight | shiftRightUnsigned
  | add | subtract | multiply | divide | remainder | power
deriving DecidableEq, Repr

namespace BinaryOp

def text : BinaryOp → String
  | coalesce => "??"
  | or => "||"
  | and => "&&"
  | bitOr => "|"
  | bitXor => "^"
  | bitAnd => "&"
  | equal => "=="
  | notEqual => "!="
  | strictEqual => "==="
  | strictNotEqual => "!=="
  | less => "<"
  | lessEqual => "<="
  | greater => ">"
  | greaterEqual => ">="
  | instanceOf => "instanceof"
  | isIn => "in"
  | shiftLeft => "<<"
  | shiftRight => ">>"
  | shiftRightUnsigned => ">>>"
  | add => "+"
  | subtract => "-"
  | multiply => "*"
  | divide => "/"
  | remainder => "%"
  | power => "**"

/-- The larger it is, the tighter the operator binds. -/
def precedence : BinaryOp → Nat
  | coalesce => 1
  | or => 2
  | and => 3
  | bitOr => 4
  | bitXor => 5
  | bitAnd => 6
  | equal | notEqual | strictEqual | strictNotEqual => 7
  | less | lessEqual | greater | greaterEqual | instanceOf | isIn => 8
  | shiftLeft | shiftRight | shiftRightUnsigned => 9
  | add | subtract => 10
  | multiply | divide | remainder => 11
  | power => 12

/-- The least precedence of an operator in the right operand. Only `**` groups to the right. -/
def rightPrecedence (op : BinaryOp) : Nat :=
  if op = power then op.precedence else op.precedence + 1

/-- Operators that may leave their right operand unevaluated. -/
def isLogical : BinaryOp → Bool
  | coalesce | or | and => true
  | _ => false

end BinaryOp

end FlowLint
