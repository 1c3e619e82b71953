import FlowLint.Tree.Basic

namespace FlowLint

mutual

/-- The number of statements and expressions in an expression, itself included. -/
def Expr.size : Expr → Nat
  | .name .. | .number .. | .string .. | .boolean .. | .null .. => 1
  | .array _ elements | .sequence _ elements => 1 + Expr.sizes elements
  | .call _ callee arguments | .new _ callee arguments => 1 + callee.size + Expr.sizes arguments
  | .member _ object _ => 1 + object.size
  | .subscript _ object index => 1 + object.size + index.size
  | .unary _ _ operand => 1 + operand.size
  | .update _ _ _ target => 1 + target.size
  | .binary _ _ left right => 1 + left.size + right.size
  | .assign _ _ target value => 1 + value.size + target.size
  | .conditional _ test whenTrue whenFalse => 1 + test.size + whenTrue.size + whenFalse.size
  | .function _ _ _ body => 1 + Stmt.sizes body

def Expr.sizes : List Expr → Nat
  | [] => 0
  | expr :: exprs => expr.size + Expr.sizes exprs

def Expr.optionSize : Option Expr → Nat
  | none => 0
  | some expr => expr.size

/-- The number of statements and expressions in a statement, itself included. -/
def Stmt.size : Stmt → Nat
  | .expression _ value => 1 + value.size
  | .declaration _ _ declarators => 1 + Declarator.sizes declarators
  | .function _ _ _ body => 1 + Stmt.sizes body
  | .ifStmt _ test body orElse => 1 + test.size + body.size + Stmt.optionSize orElse
  | .whileStmt _ test body => 1 + test.size + body.size
  | .doStmt _ body test => 1 + body.size + test.size
  | .forStmt _ init test update body =>
    1 + Stmt.optionSize init + Expr.optionSize test + body.size + Expr.optionSize update
  | .forEach _ _ left right body => 1 + right.size + left.size + body.size
  | .jump .. | .empty _ | .debugger _ => 1
  | .returnStmt _ value => 1 + Expr.optionSize value
  | .throwStmt _ value => 1 + value.size
  | .tryStmt _ block handler finalizer =>
    1 + block.size + Handler.optionSize handler + Block.optionSize finalizer
  | .switchStmt _ discriminant clauses => 1 + discriminant.size + Clause.sizes clauses
  | .block _ body => 1 + Stmt.sizes body
  | .labeled _ _ body => 1 + body.size
  | .withStmt _ object body => 1 + object.size + body.size

def Stmt.sizes : List Stmt → Nat
  | [] => 0
  | stmt :: stmts => stmt.size + Stmt.sizes stmts

def Stmt.optionSize : Option Stmt → Nat
  | none => 0
  | some stmt => stmt.size

def Declarator.sizes : List Declarator → Nat
  | [] => 0
  | ⟨_, _, init⟩ :: declarators => Expr.optionSize init + Declarator.sizes declarators

def Block.size : Block → Nat
  | ⟨_, body⟩ => Stmt.sizes body

def Block.optionSize : Option Block → Nat
  | none => 0
  | some block => block.size

def Handler.optionSize : Option Handler → Nat
  | none => 0
  | some ⟨_, parameter, body⟩ => Expr.optionSize parameter + body.size

def Clause.sizes : List Clause → Nat
  | [] => 0
  | ⟨_, test, body⟩ :: clauses => Expr.optionSize test + Stmt.sizes body + Clause.sizes clauses

end

end FlowLint
