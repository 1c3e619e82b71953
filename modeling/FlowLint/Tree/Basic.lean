import FlowLint.Literal.Binary64
import FlowLint.Source.Range
import FlowLint.Tree.Operator

/-!
Syntax trees. Every node has the range of the source it was read from; literals also keep the text
they were written with. Parentheses leave no node behind.
-/
namespace FlowLint

structure Identifier where
  name : String
  range : Range
deriving DecidableEq, Repr, Inhabited

inductive DeclarationKind
  | var | let | const
deriving DecidableEq, Repr

namespace DeclarationKind

def text : DeclarationKind → String
  | .var => "var"
  | .let => "let"
  | .const => "const"

end DeclarationKind

/-- Whether a loop runs over the keys of its subject or over its items. -/
inductive EachKind
  | keys | items
deriving DecidableEq, Repr

inductive JumpKind
  | break | continue
deriving DecidableEq, Repr

namespace JumpKind

def text : JumpKind → String
  | .break => "break"
  | .continue => "continue"

end JumpKind

mutual

inductive Expr where
  | name (range : Range) (id : String)
  | number (range : Range) (text : String) (value : Binary64)
  | string (range : Range) (text : String) (value : String)
  | boolean (range : Range) (value : Bool)
  | null (range : Range)
  | array (range : Range) (elements : List Expr)
  | call (range : Range) (callee : Expr) (arguments : List Expr)
  | new (range : Range) (callee : Expr) (arguments : List Expr)
  | member (range : Range) (object : Expr) (property : Identifier)
  | subscript (range : Range) (object index : Expr)
  | unary (range : Range) (op : UnaryOp) (operand : Expr)
  | update (range : Range) (op : UpdateOp) (fixity : Fixity) (target : Expr)
  | binary (range : Range) (op : BinaryOp) (left right : Expr)
  | assign (range : Range) (op : Option BinaryOp) (target value : Expr)
  | conditional (range : Range) (test whenTrue whenFalse : Expr)
  | sequence (range : Range) (elements : List Expr)
  | function (range : Range) (name : Option Identifier) (parameters : List Identifier)
    (body : List Stmt)

inductive Stmt where
  | expression (range : Range) (value : Expr)
  | declaration (range : Range) (kind : DeclarationKind) (declarators : List Declarator)
  | function (range : Range) (name : Identifier) (parameters : List Identifier) (body : List Stmt)
  | ifStmt (range : Range) (test : Expr) (body : Stmt) (orElse : Option Stmt)
  | whileStmt (range : Range) (test : Expr) (body : Stmt)
  | doStmt (range : Range) (body : Stmt) (test : Expr)
  | forStmt (range : Range) (init : Option Stmt) (test update : Option Expr) (body : Stmt)
  | forEach (range : Range) (kind : EachKind) (left : Stmt) (right : Expr) (body : Stmt)
  | jump (range : Range) (kind : JumpKind) (label : Option Identifier)
  | returnStmt (range : Range) (value : Option Expr)
  | throwStmt (range : Range) (value : Expr)
  | tryStmt (range : Range) (block : Block) (handler : Option Handler) (finalizer : Option Block)
  | switchStmt (range : Range) (discriminant : Expr) (clauses : List Clause)
  | block (range : Range) (body : List Stmt)
  | labeled (range : Range) (label : Identifier) (body : Stmt)
  | empty (range : Range)
  | debugger (range : Range)
  | withStmt (range : Range) (object : Expr) (body : Stmt)

structure Declarator where
  range : Range
  name : Identifier
  init : Option Expr

structure Block where
  range : Range
  body : List Stmt

structure Handler where
  range : Range
  parameter : Option Expr
  body : Block

/-- A clause of a `switch`; the one without a test is the default. -/
structure Clause where
  range : Range
  test : Option Expr
  body : List Stmt

end

deriving instance Repr, Inhabited for Expr, Stmt, Declarator, Block, Handler, Clause

structure Script where
  range : Range
  body : List Stmt
deriving Repr, Inhabited

namespace Expr

def range : Expr → Range
  | name range .. | number range .. | string range .. | boolean range .. | null range
  | array range .. | call range .. | new range .. | member range .. | subscript range ..
  | unary range .. | update range .. | binary range .. | assign range .. | conditional range ..
  | sequence range .. | function range .. => range

/-- Only names, members and subscripts can be assigned to. -/
def isAssignable : Expr → Bool
  | name .. | member .. | subscript .. => true
  | _ => false

end Expr

namespace Stmt

def range : Stmt → Range
  | expression range .. | declaration range .. | function range .. | ifStmt range ..
  | whileStmt range .. | doStmt range .. | forStmt range .. | forEach range .. | jump range ..
  | returnStmt range .. | throwStmt range .. | tryStmt range .. | switchStmt range ..
  | block range .. | labeled range .. | empty range | debugger range | withStmt range .. => range

/-- The keyword, or a short description, of the kind of statement. -/
def kindName : Stmt → String
  | expression .. => "expression"
  | declaration _ kind _ => kind.text
  | function .. => "function"
  | ifStmt .. => "if"
  | whileStmt .. => "while"
  | doStmt .. => "do-while"
  | forStmt .. => "for"
  | forEach _ .keys .. => "for-in"
  | forEach _ .items .. => "for-of"
  | jump _ kind _ => kind.text
  | returnStmt .. => "return"
  | throwStmt .. => "throw"
  | tryStmt .. => "try"
  | switchStmt .. => "switch"
  | block .. => "block"
  | labeled .. => "labeled"
  | empty .. => "empty"
  | debugger .. => "debugger"
  | withStmt .. => "with"

end Stmt

instance : Ranged Expr := ⟨Expr.range⟩

instance : Ranged Stmt := ⟨Stmt.range⟩

end FlowLint
