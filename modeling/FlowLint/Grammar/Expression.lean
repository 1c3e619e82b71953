import FlowLint.Grammar.Production
import FlowLint.Literal.NumberValue
import FlowLint.Literal.Quoted

namespace FlowLint

namespace TokenKind

def unaryOp? : TokenKind → Option UnaryOp
  | .symbol .bang => some .not
  | .symbol .tilde => some .bitNot
  | .symbol .plus => some .plus
  | .symbol .minus => some .minus
  | .keyword .typeof => some .typeOf
  | .keyword .void => some .void
  | .keyword .delete => some .delete
  | _ => none

def updateOp? : TokenKind → Option UpdateOp
  | .symbol .increment => some .increment
  | .symbol .decrement => some .decrement
  | _ => none

def binaryOp? (noIn : Bool) : TokenKind → Option BinaryOp
  | .symbol .coalesce => some .coalesce
  | .symbol .or => some .or
  | .symbol .and => some .and
  | .symbol .bitOr => some .bitOr
  | .symbol .bitXor => some .bitXor
  | .symbol .bitAnd => some .bitAnd
  | .symbol .equal => some .equal
  | .symbol .notEqual => some .notEqual
  | .symbol .strictEqual => some .strictEqual
  | .symbol .strictNotEqual => some .strictNotEqual
  | .symbol .less => some .less
  | .symbol .lessEqual => some .lessEqual
  | .symbol .greater => some .greater
  | .symbol .greaterEqual => some .greaterEqual
  | .keyword .instanceof => some .instanceOf
  | .keyword .in => if noIn then none else some .isIn
  | .symbol .shiftLeft => some .shiftLeft
  | .symbol .shiftRight => some .shiftRight
  | .symbol .shiftRightUnsigned => some .shiftRightUnsigned
  | .symbol .plus => some .add
  | .symbol .minus => some .subtract
  | .symbol .star => some .multiply
  | .symbol .slash => some .divide
  | .symbol .percent => some .remainder
  | .symbol .power => some .power
  | _ => none

/-- An assignment operator is the plain one, or one that combines with a binary operator. -/
def assignOp? : TokenKind → Option (Option BinaryOp)
  | .symbol .assign => some none
  | .symbol .plusAssign => some (some .add)
  | .symbol .minusAssign => some (some .subtract)
  | .symbol .starAssign => some (some .multiply)
  | .symbol .slashAssign => some (some .divide)
  | .symbol .percentAssign => some (some .remainder)
  | _ => none

end TokenKind

namespace Grammar

open TokenReader

def parenthesized (g : Grammar) : TokenReader Expr := do
  let _ ← symbol .leftParen
  let expr ← g (.expression false)
  let _ ← symbol .rightParen
  return expr

def parameterList (g : Grammar) : TokenReader (List Identifier) := do
  let _ ← symbol .leftParen
  g .parameters

def functionBody (g : Grammar) : TokenReader (List Stmt) := do
  let _ ← symbol .leftBrace
  g .statements

def argumentList (g : Grammar) : TokenReader (List Expr) := do
  let _ ← symbol .leftParen
  g (.elements .rightParen)

def number : TokenReader Expr := do
  let token ← bump
  match NumberLiteral.valueOf? token.text.toList with
  | some value => return .number token.range token.text value
  | none => throw ⟨.invalidNumber token.text, token.range⟩

def string : TokenReader Expr := do
  let token ← bump
  return .string token.range token.text (String.ofList (Quoted.value token.text.toList))

def arrayLiteral (g : Grammar) : TokenReader Expr := do
  let start := (← bump).range.start
  let elements ← g (.elements .rightBracket)
  return .array (← rangeFrom start) elements

def functionExpression (g : Grammar) : TokenReader Expr := do
  let start := (← bump).range.start
  let name ← if ← isAt .name then some <$> identifier else pure none
  let parameters ← parameterList g
  let body ← functionBody g
  return .function (← rangeFrom start) name parameters body

def primary (g : Grammar) : TokenReader Expr := do
  let token ← peek
  match token.kind with
  | .name => do
    let _ ← bump
    return .name token.range token.text
  | .number => number
  | .string => string
  | .keyword .true => do
    let _ ← bump
    return .boolean token.range true
  | .keyword .false => do
    let _ ← bump
    return .boolean token.range false
  | .keyword .null => do
    let _ ← bump
    return .null token.range
  | .symbol .leftParen => parenthesized g
  | .symbol .leftBracket => arrayLiteral g
  | .keyword .function => functionExpression g
  | _ => unexpected .expression

/-- A property name is any word, also a reserved one. -/
def propertyName : TokenReader Identifier := do
  let token ← bump
  if token.text.toList.head?.any Character.isNameStart then
    return ⟨token.text, token.range⟩
  else
    throw ⟨.missingPropertyName, token.range⟩

/-- One member access, at a dot or an opening bracket. -/
def memberSuffix (g : Grammar) (target : Expr) : TokenReader Expr := do
  let start := target.range.start
  if ← eat (.symbol .dot) then
    let property ← propertyName
    return .member (← rangeFrom start) target property
  else
    let _ ← symbol .leftBracket
    let index ← g (.expression false)
    let _ ← symbol .rightBracket
    return .subscript (← rangeFrom start) target index

def members (g : Grammar) (target : Expr) : TokenReader Expr := do
  match (← peek).kind with
  | .symbol .dot | .symbol .leftBracket => do
    let target ← memberSuffix g target
    g (.members target)
  | _ => return target

def suffixes (g : Grammar) (target : Expr) : TokenReader Expr := do
  match (← peek).kind with
  | .symbol .leftParen => do
    let arguments ← argumentList g
    let range ← rangeFrom target.range.start
    g (.suffixes (.call range target arguments))
  | .symbol .dot | .symbol .leftBracket => do
    let target ← memberSuffix g target
    g (.suffixes target)
  | _ => return target

/-- A `new` expression takes the member accesses behind its callee, and the arguments if there
are any. -/
def construction (g : Grammar) : TokenReader Expr := do
  let start := (← bump).range.start
  let callee ← if ← isAt (.keyword .new) then g .construction else primary g
  let callee ← members g callee
  let arguments ← if ← isAt (.symbol .leftParen) then argumentList g else pure []
  return .new (← rangeFrom start) callee arguments

def call (g : Grammar) : TokenReader Expr := do
  let target ← if ← isAt (.keyword .new) then construction g else primary g
  suffixes g target

/-- An operator behind its target stands on the same line. -/
def postfixUpdate (g : Grammar) : TokenReader Expr := do
  let target ← call g
  let token ← peek
  match token.kind.updateOp? with
  | some op =>
    if token.newlineBefore then return target
    else do
      let _ ← bump
      return .update ⟨target.range.start, token.range.stop⟩ op .after target
  | none => return target

def unary (g : Grammar) : TokenReader Expr := do
  let token ← peek
  match token.kind.unaryOp? with
  | some op => do
    let _ ← bump
    let operand ← g .unary
    return .unary ⟨token.range.start, operand.range.stop⟩ op operand
  | none =>
    match token.kind.updateOp? with
    | some op => do
      let _ ← bump
      let target ← g .unary
      return .update ⟨token.range.start, target.range.stop⟩ op .before target
    | none => postfixUpdate g

def binaryRest (g : Grammar) (least : Nat) (noIn : Bool) (left : Expr) : TokenReader Expr := do
  match (← peek).kind.binaryOp? noIn with
  | some op =>
    if op.precedence < least then return left
    else do
      let _ ← bump
      let right ← g (.binary op.rightPrecedence noIn)
      g (.binaryRest least noIn (.binary ⟨left.range.start, right.range.stop⟩ op left right))
  | none => return left

def binary (g : Grammar) (least : Nat) (noIn : Bool) : TokenReader Expr := do
  let left ← unary g
  binaryRest g least noIn left

/-- Between `?` and `:` the word `in` is an operator even with `noIn`. -/
def conditional (g : Grammar) (noIn : Bool) : TokenReader Expr := do
  let test ← binary g 0 noIn
  if ← eat (.symbol .question) then
    let whenTrue ← g (.assignment false)
    let _ ← symbol .colon
    let whenFalse ← g (.assignment noIn)
    return .conditional ⟨test.range.start, whenFalse.range.stop⟩ test whenTrue whenFalse
  else
    return test

def assignment (g : Grammar) (noIn : Bool) : TokenReader Expr := do
  let target ← conditional g noIn
  match (← peek).kind.assignOp? with
  | some op =>
    if target.isAssignable then do
      let _ ← bump
      let value ← g (.assignment noIn)
      return .assign ⟨target.range.start, value.range.stop⟩ op target value
    else throw ⟨.invalidAssignmentTarget, target.range⟩
  | none => return target

def commaParts (g : Grammar) (noIn : Bool) : TokenReader (List Expr) := do
  if ← eat (.symbol .comma) then
    let part ← assignment g noIn
    let parts ← g (.commaParts noIn)
    return part :: parts
  else
    return []

def expression (g : Grammar) (noIn : Bool) : TokenReader Expr := do
  let first ← assignment g noIn
  if ← isAt (.symbol .comma) then
    let parts ← commaParts g noIn
    return .sequence (← rangeFrom first.range.start) (first :: parts)
  else
    return first

/-- A comma behind the last element is allowed. -/
def elements (g : Grammar) (close : Symbol) : TokenReader (List Expr) := do
  if ← eat (.symbol close) then
    return []
  else
    let element ← assignment g false
    if !(← isAt (.symbol close)) then
      let _ ← symbol .comma
    let elements ← g (.elements close)
    return element :: elements

end Grammar

end FlowLint
