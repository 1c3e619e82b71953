import FlowLint.Literal.NumberValue
import FlowLint.Token.Basic
import FlowLint.Tree.Basic

namespace FlowLint

/-- A token without its place. Literals have a value beside the text they are written with. -/
inductive Word
  | symbol (symbol : Symbol)
  | keyword (keyword : Keyword)
  | name (text : String)
  | number (text : String) (value : Option Binary64)
  | string (text value : String)
deriving DecidableEq, Repr

namespace Word

def text : Word → String
  | symbol s => s.text
  | keyword k => k.text
  | name text | number text _ | string text _ => text

def kind : Word → TokenKind
  | symbol s => .symbol s
  | keyword k => .keyword k
  | name _ => .name
  | number .. => .number
  | string .. => .string

/-- The word of a property name, which may be a reserved one. -/
def property (text : String) : Word :=
  match Keyword.ofWord? text.toList with
  | some k => keyword k
  | none => name text

def enclosed (left right : Symbol) (words : List Word) : List Word :=
  .symbol left :: (words ++ [.symbol right])

def parenthesized (words : List Word) : List Word :=
  enclosed .leftParen .rightParen words

def braced (words : List Word) : List Word :=
  enclosed .leftBrace .rightBrace words

def names : List Identifier → List Word
  | [] => []
  | [id] => [.name id.name]
  | id :: ids => .name id.name :: .symbol .comma :: names ids

end Word

def UnaryOp.word : UnaryOp → Word
  | not => .symbol .bang
  | bitNot => .symbol .tilde
  | plus => .symbol .plus
  | minus => .symbol .minus
  | typeOf => .keyword .typeof
  | void => .keyword .void
  | delete => .keyword .delete

def UpdateOp.word : UpdateOp → Word
  | increment => .symbol .increment
  | decrement => .symbol .decrement

def BinaryOp.word : BinaryOp → Word
  | coalesce => .symbol .coalesce
  | or => .symbol .or
  | and => .symbol .and
  | bitOr => .symbol .bitOr
  | bitXor => .symbol .bitXor
  | bitAnd => .symbol .bitAnd
  | equal => .symbol .equal
  | notEqual => .symbol .notEqual
  | strictEqual => .symbol .strictEqual
  | strictNotEqual => .symbol .strictNotEqual
  | less => .symbol .less
  | lessEqual => .symbol .lessEqual
  | greater => .symbol .greater
  | greaterEqual => .symbol .greaterEqual
  | instanceOf => .keyword .instanceof
  | isIn => .keyword .in
  | shiftLeft => .symbol .shiftLeft
  | shiftRight => .symbol .shiftRight
  | shiftRightUnsigned => .symbol .shiftRightUnsigned
  | add => .symbol .plus
  | subtract => .symbol .minus
  | multiply => .symbol .star
  | divide => .symbol .slash
  | remainder => .symbol .percent
  | power => .symbol .power

/-- The operator of an assignment. It combines with few binary operators; an assignment with another
one is never read. -/
def BinaryOp.assignWord : Option BinaryOp → Word
  | none => .symbol .assign
  | some add => .symbol .plusAssign
  | some subtract => .symbol .minusAssign
  | some multiply => .symbol .starAssign
  | some divide => .symbol .slashAssign
  | some remainder => .symbol .percentAssign
  | some op => op.word

def Keyword.ofBool (value : Bool) : Keyword :=
  if value then .true else .false

def DeclarationKind.keyword : DeclarationKind → Keyword
  | .var => .var
  | .let => .let
  | .const => .const

def JumpKind.keyword : JumpKind → Keyword
  | .break => .break
  | .continue => .continue

def EachKind.word : EachKind → Word
  | keys => .keyword .in
  | items => .name "of"

mutual

/-- The words of an expression, without parentheses around it. -/
def Expr.words : Expr → List Word
  | .name _ id => [.name id]
  | .number _ text value => [.number text value]
  | .string _ text value => [.string text value]
  | .boolean _ value => [.keyword (.ofBool value)]
  | .null _ => [.keyword .null]
  | .array _ elements => Word.enclosed .leftBracket .rightBracket (Expr.listWords elements)
  | .call _ callee arguments =>
    Word.parenthesized callee.words ++ Word.parenthesized (Expr.listWords arguments)
  | .new _ callee arguments =>
    .keyword .new :: (Word.parenthesized callee.words ++
      Word.parenthesized (Expr.listWords arguments))
  | .member _ object property =>
    Word.parenthesized object.words ++ [.symbol .dot, Word.property property.name]
  | .subscript _ object index =>
    Word.parenthesized object.words ++
      Word.enclosed .leftBracket .rightBracket (Word.parenthesized index.words)
  | .unary _ op operand => op.word :: Word.parenthesized operand.words
  | .update _ op .before target => op.word :: Word.parenthesized target.words
  | .update _ op .after target => Word.parenthesized target.words ++ [op.word]
  | .binary _ op left right =>
    Word.parenthesized left.words ++ op.word :: Word.parenthesized right.words
  | .assign _ op target value =>
    Word.parenthesized target.words ++
      BinaryOp.assignWord op :: Word.parenthesized value.words
  | .conditional _ test whenTrue whenFalse =>
    Word.parenthesized test.words ++
      .symbol .question :: (Word.parenthesized whenTrue.words ++
        .symbol .colon :: Word.parenthesized whenFalse.words)
  | .sequence _ elements => Expr.listWords elements
  | .function _ name parameters body =>
    .keyword .function :: (name.toList.map (fun id => .name id.name) ++
      (Word.parenthesized (Word.names parameters) ++ Word.braced (Stmt.listWords body)))

def Expr.listWords : List Expr → List Word
  | [] => []
  | expr :: exprs => Word.parenthesized expr.words ++ Expr.restWords exprs

/-- Expressions with a comma before each of them. -/
def Expr.restWords : List Expr → List Word
  | [] => []
  | expr :: exprs => .symbol .comma :: (Word.parenthesized expr.words ++ Expr.restWords exprs)

def Expr.optionWords : Option Expr → List Word
  | none => []
  | some expr => Word.parenthesized expr.words

def Stmt.words : Stmt → List Word
  | .expression _ value => Word.parenthesized value.words ++ [.symbol .semicolon]
  | .declaration _ kind declarators =>
    .keyword kind.keyword :: (Declarator.words declarators ++ [.symbol .semicolon])
  | .function _ name parameters body =>
    .keyword .function :: .name name.name ::
      (Word.parenthesized (Word.names parameters) ++ Word.braced (Stmt.listWords body))
  | .ifStmt _ test body orElse =>
    .keyword .if :: (Word.parenthesized (Word.parenthesized test.words) ++
      (body.words ++ Stmt.elseWords orElse))
  | .whileStmt _ test body =>
    .keyword .while :: (Word.parenthesized (Word.parenthesized test.words) ++ body.words)
  | .doStmt _ body test =>
    .keyword .do :: (body.words ++
      .keyword .while :: (Word.parenthesized (Word.parenthesized test.words) ++
        [.symbol .semicolon]))
  | .forStmt _ init test update body =>
    .keyword .for :: .symbol .leftParen :: (Stmt.initWords init ++
      .symbol .semicolon :: (Expr.optionWords test ++
        .symbol .semicolon :: (Expr.optionWords update ++
          .symbol .rightParen :: body.words)))
  | .forEach _ kind left right body =>
    .keyword .for :: .symbol .leftParen :: (left.headWords ++
      kind.word :: (Word.parenthesized right.words ++ .symbol .rightParen :: body.words))
  | .jump _ kind label =>
    .keyword kind.keyword :: (label.toList.map (fun id => .name id.name) ++ [.symbol .semicolon])
  | .returnStmt _ value =>
    .keyword .return :: (Expr.optionWords value ++ [.symbol .semicolon])
  | .throwStmt _ value =>
    .keyword .throw :: (Word.parenthesized value.words ++ [.symbol .semicolon])
  | .tryStmt _ block handler finalizer =>
    .keyword .try :: (block.words ++ (Handler.words handler ++ Block.finallyWords finalizer))
  | .switchStmt _ discriminant clauses =>
    .keyword .switch :: (Word.parenthesized (Word.parenthesized discriminant.words) ++
      Word.braced (Clause.words clauses))
  | .block _ body => Word.braced (Stmt.listWords body)
  | .labeled _ label body => .name label.name :: .symbol .colon :: body.words
  | .empty _ => [.symbol .semicolon]
  | .debugger _ => [.keyword .debugger, .symbol .semicolon]
  | .withStmt _ object body =>
    .keyword .with :: (Word.parenthesized (Word.parenthesized object.words) ++ body.words)

def Stmt.listWords : List Stmt → List Word
  | [] => []
  | stmt :: stmts => stmt.words ++ Stmt.listWords stmts

/-- What stands first in the head of a `for`: an expression or a declaration. -/
def Stmt.headWords : Stmt → List Word
  | .expression _ value => Word.parenthesized value.words
  | .declaration _ kind declarators => .keyword kind.keyword :: Declarator.words declarators
  | _ => []

def Stmt.initWords : Option Stmt → List Word
  | none => []
  | some stmt => stmt.headWords

def Stmt.elseWords : Option Stmt → List Word
  | none => []
  | some stmt => .keyword .else :: stmt.words

def Declarator.words : List Declarator → List Word
  | [] => []
  | ⟨_, name, init⟩ :: declarators =>
    .name name.name :: (Expr.initializerWords init ++ Declarator.restWords declarators)

def Declarator.restWords : List Declarator → List Word
  | [] => []
  | ⟨_, name, init⟩ :: declarators =>
    .symbol .comma :: .name name.name ::
      (Expr.initializerWords init ++ Declarator.restWords declarators)

def Expr.initializerWords : Option Expr → List Word
  | none => []
  | some expr => .symbol .assign :: Word.parenthesized expr.words

def Block.words : Block → List Word
  | ⟨_, body⟩ => Word.braced (Stmt.listWords body)

def Block.finallyWords : Option Block → List Word
  | none => []
  | some block => .keyword .finally :: block.words

def Handler.words : Option Handler → List Word
  | none => []
  | some ⟨_, parameter, body⟩ =>
    .keyword .catch :: (Expr.parameterWords parameter ++ body.words)

def Expr.parameterWords : Option Expr → List Word
  | none => []
  | some expr => Word.parenthesized (Word.parenthesized expr.words)

def Clause.words : List Clause → List Word
  | [] => []
  | ⟨_, test, body⟩ :: clauses =>
    Expr.testWords test ++ .symbol .colon :: (Stmt.listWords body ++ Clause.words clauses)

def Expr.testWords : Option Expr → List Word
  | none => [.keyword .default]
  | some expr => .keyword .case :: Word.parenthesized expr.words

end

namespace Script

def words (script : Script) : List Word :=
  Stmt.listWords script.body

/-- The words of a script with single blanks between them. -/
def print (script : Script) : String :=
  " ".intercalate (script.words.map Word.text)

end Script

end FlowLint
