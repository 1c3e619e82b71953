import FlowLint.Grammar.Expression

namespace FlowLint

def TokenKind.declarationKind? : TokenKind → Option DeclarationKind
  | .keyword .var => some .var
  | .keyword .let => some .let
  | .keyword .const => some .const
  | _ => none

/-- `of` is a word with a meaning in one place only, and an ordinary name elsewhere. -/
def Token.isOf (token : Token) : Bool :=
  token.kind == .name && token.text == "of"

namespace Grammar

open TokenReader

def block (g : Grammar) : TokenReader Block := do
  let start := (← symbol .leftBrace).range.start
  let body ← g .statements
  return ⟨← rangeFrom start, body⟩

def blockStatement (g : Grammar) : TokenReader Stmt := do
  let ⟨range, body⟩ ← block g
  return .block range body

def emptyStatement : TokenReader Stmt := do
  let start := (← bump).range.start
  return .empty (← rangeFrom start)

def declarators (g : Grammar) (noIn : Bool) : TokenReader (List Declarator) := do
  let name ← identifier
  let init ← if ← eat (.symbol .assign) then some <$> g (.assignment noIn) else pure none
  let declarator := ⟨← rangeFrom name.range.start, name, init⟩
  if ← eat (.symbol .comma) then
    let others ← g (.declarators noIn)
    return declarator :: others
  else
    return [declarator]

def declarationStatement (g : Grammar) (kind : DeclarationKind) : TokenReader Stmt := do
  let start := (← bump).range.start
  let names ← g (.declarators false)
  semicolon
  return .declaration (← rangeFrom start) kind names

def functionStatement (g : Grammar) : TokenReader Stmt := do
  let start := (← bump).range.start
  let name ← identifier
  let parameters ← parameterList g
  let body ← functionBody g
  return .function (← rangeFrom start) name parameters body

/-- An `else` belongs to the nearest `if`. -/
def ifStatement (g : Grammar) : TokenReader Stmt := do
  let start := (← bump).range.start
  let test ← parenthesized g
  let body ← g .statement
  let orElse ← if ← eat (.keyword .else) then some <$> g .statement else pure none
  return .ifStmt (← rangeFrom start) test body orElse

def whileStatement (g : Grammar) : TokenReader Stmt := do
  let start := (← bump).range.start
  let test ← parenthesized g
  let body ← g .statement
  return .whileStmt (← rangeFrom start) test body

/-- The semicolon behind the test may be left out anywhere. -/
def doStatement (g : Grammar) : TokenReader Stmt := do
  let start := (← bump).range.start
  let body ← g .statement
  let _ ← keyword .while
  let test ← parenthesized g
  let _ ← eat (.symbol .semicolon)
  return .doStmt (← rangeFrom start) body test

def forHead (g : Grammar) : TokenReader (Option Stmt) := do
  let token ← peek
  if token.kind = .symbol .semicolon then
    return none
  else
    match token.kind.declarationKind? with
    | some kind => do
      let start := (← bump).range.start
      let names ← g (.declarators true)
      return some (.declaration (← rangeFrom start) kind names)
    | none => do
      let value ← g (.expression true)
      return some (.expression value.range value)

def forRest (g : Grammar) (start : Nat) (init : Option Stmt) : TokenReader Stmt := do
  let _ ← symbol .semicolon
  let test ← if ← isAt (.symbol .semicolon) then pure none else some <$> g (.expression false)
  let _ ← symbol .semicolon
  let update ← if ← isAt (.symbol .rightParen) then pure none else some <$> g (.expression false)
  let _ ← symbol .rightParen
  let body ← g .statement
  return .forStmt (← rangeFrom start) init test update body

def forEachRest (g : Grammar) (start : Nat) (kind : EachKind) (left : Stmt) (right : Expr) :
    TokenReader Stmt := do
  let _ ← symbol .rightParen
  let body ← g .statement
  return .forEach (← rangeFrom start) kind left right body

def forStatement (g : Grammar) : TokenReader Stmt := do
  let start := (← bump).range.start
  let _ ← symbol .leftParen
  match ← forHead g with
  | none => forRest g start none
  | some left => do
    if ← eat (.keyword .in) then
      let right ← g (.expression false)
      forEachRest g start .keys left right
    else if (← peek).isOf then
      let _ ← bump
      let right ← g (.assignment false)
      forEachRest g start .items left right
    else
      forRest g start (some left)

/-- The label of a jump stands on the same line. -/
def jumpLabel : TokenReader (Option Identifier) := do
  let token ← peek
  if token.kind = .name ∧ token.newlineBefore = false then some <$> identifier else return none

def jumpStatement (kind : JumpKind) : TokenReader Stmt := do
  let start := (← bump).range.start
  let label ← jumpLabel
  semicolon
  return .jump (← rangeFrom start) kind label

/-- The value of a `return` starts on the same line. -/
def returnStatement (g : Grammar) : TokenReader Stmt := do
  let start := (← bump).range.start
  let value ← if endsStatement (← peek) then pure none else some <$> g (.expression false)
  semicolon
  return .returnStmt (← rangeFrom start) value

def throwStatement (g : Grammar) : TokenReader Stmt := do
  let start := (← bump).range.start
  let token ← peek
  if token.newlineBefore then
    throw ⟨.lineBreakAfterThrow, token.range⟩
  else
    let value ← g (.expression false)
    semicolon
    return .throwStmt (← rangeFrom start) value

/-- The parameter of a `catch` is any expression that needs no operator. -/
def handlerParameter (g : Grammar) : TokenReader (Option Expr) := do
  if ← eat (.symbol .leftParen) then
    let parameter ← primary g
    let _ ← symbol .rightParen
    return some parameter
  else
    return none

def handler (g : Grammar) : TokenReader (Option Handler) := do
  if ← isAt (.keyword .catch) then
    let start := (← bump).range.start
    let parameter ← handlerParameter g
    let body ← block g
    return some ⟨← rangeFrom start, parameter, body⟩
  else
    return none

def finalizer (g : Grammar) : TokenReader (Option Block) := do
  if ← eat (.keyword .finally) then some <$> block g else return none

/-- A `try` needs a handler or a finalizer. -/
def tryStatement (g : Grammar) : TokenReader Stmt := do
  let start := (← bump).range.start
  let body ← block g
  let handler ← handler g
  let finalizer ← finalizer g
  if handler.isNone && finalizer.isNone then
    unexpected .handler
  else
    return .tryStmt (← rangeFrom start) body handler finalizer

/-- The test of a clause, or nothing for the default clause. -/
def clauseTest (g : Grammar) : TokenReader (Option Expr) := do
  if ← eat (.keyword .case) then some <$> g (.expression false)
  else if ← eat (.keyword .default) then return none
  else unexpected .clause

def clauses (g : Grammar) : TokenReader (List Clause) := do
  if ← eat (.symbol .rightBrace) then
    return []
  else
    let start := (← peek).range.start
    let test ← clauseTest g
    let _ ← symbol .colon
    let body ← g .clauseBody
    let clause := ⟨← rangeFrom start, test, body⟩
    let others ← g .clauses
    return clause :: others

def switchStatement (g : Grammar) : TokenReader Stmt := do
  let start := (← bump).range.start
  let discriminant ← parenthesized g
  let _ ← symbol .leftBrace
  let clauses ← g .clauses
  return .switchStmt (← rangeFrom start) discriminant clauses

def withStatement (g : Grammar) : TokenReader Stmt := do
  let start := (← bump).range.start
  let object ← parenthesized g
  let body ← g .statement
  return .withStmt (← rangeFrom start) object body

def debuggerStatement : TokenReader Stmt := do
  let start := (← bump).range.start
  semicolon
  return .debugger (← rangeFrom start)

def labeledStatement (g : Grammar) : TokenReader Stmt := do
  let label ← identifier
  let _ ← symbol .colon
  let body ← g .statement
  return .labeled (← rangeFrom label.range.start) label body

def expressionStatement (g : Grammar) : TokenReader Stmt := do
  let start := (← peek).range.start
  let value ← expression g false
  semicolon
  return .expression (← rangeFrom start) value

def statement (g : Grammar) : TokenReader Stmt := do
  match (← peek).kind with
  | .symbol .leftBrace => blockStatement g
  | .symbol .semicolon => emptyStatement
  | .keyword .var => declarationStatement g .var
  | .keyword .let => declarationStatement g .let
  | .keyword .const => declarationStatement g .const
  | .keyword .function => functionStatement g
  | .keyword .if => ifStatement g
  | .keyword .while => whileStatement g
  | .keyword .do => doStatement g
  | .keyword .for => forStatement g
  | .keyword .break => jumpStatement .break
  | .keyword .continue => jumpStatement .continue
  | .keyword .return => returnStatement g
  | .keyword .throw => throwStatement g
  | .keyword .try => tryStatement g
  | .keyword .switch => switchStatement g
  | .keyword .with => withStatement g
  | .keyword .debugger => debuggerStatement
  | .name => do
    if (← get).nextKind = .symbol .colon then labeledStatement g else expressionStatement g
  | _ => expressionStatement g

def statements (g : Grammar) : TokenReader (List Stmt) := do
  if ← eat (.symbol .rightBrace) then
    return []
  else if ← isAt .endOfFile then
    unexpected (.symbol .rightBrace)
  else
    let stmt ← statement g
    let stmts ← g .statements
    return stmt :: stmts

def endsClause : TokenKind → Bool
  | .keyword .case | .keyword .default | .symbol .rightBrace | .endOfFile => true
  | _ => false

def clauseBody (g : Grammar) : TokenReader (List Stmt) := do
  if endsClause (← peek).kind then
    return []
  else
    let stmt ← statement g
    let stmts ← g .clauseBody
    return stmt :: stmts

def program (g : Grammar) : TokenReader (List Stmt) := do
  if ← isAt .endOfFile then
    return []
  else
    let stmt ← statement g
    let stmts ← g .program
    return stmt :: stmts

def parameters (g : Grammar) : TokenReader (List Identifier) := do
  if ← eat (.symbol .rightParen) then
    return []
  else
    let parameter ← identifier
    if !(← isAt (.symbol .rightParen)) then
      let _ ← symbol .comma
    let others ← g .parameters
    return parameter :: others

end Grammar

end FlowLint
