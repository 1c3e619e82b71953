import FlowLint.Tree.Basic

namespace FlowLint

def Identifier.relocate (f : Range → Range) (id : Identifier) : Identifier :=
  { id with range := f id.range }

mutual

/-- The same expression with all ranges changed. -/
def Expr.relocate (f : Range → Range) : Expr → Expr
  | .name range id => .name (f range) id
  | .number range text value => .number (f range) text value
  | .string range text value => .string (f range) text value
  | .boolean range value => .boolean (f range) value
  | .null range => .null (f range)
  | .array range elements => .array (f range) (Expr.relocates f elements)
  | .call range callee arguments =>
    .call (f range) (callee.relocate f) (Expr.relocates f arguments)
  | .new range callee arguments =>
    .new (f range) (callee.relocate f) (Expr.relocates f arguments)
  | .member range object property => .member (f range) (object.relocate f) (property.relocate f)
  | .subscript range object index => .subscript (f range) (object.relocate f) (index.relocate f)
  | .unary range op operand => .unary (f range) op (operand.relocate f)
  | .update range op fixity target => .update (f range) op fixity (target.relocate f)
  | .binary range op left right => .binary (f range) op (left.relocate f) (right.relocate f)
  | .assign range op target value => .assign (f range) op (target.relocate f) (value.relocate f)
  | .conditional range test whenTrue whenFalse =>
    .conditional (f range) (test.relocate f) (whenTrue.relocate f) (whenFalse.relocate f)
  | .sequence range elements => .sequence (f range) (Expr.relocates f elements)
  | .function range name parameters body =>
    .function (f range) (name.map (·.relocate f)) (parameters.map (·.relocate f))
      (Stmt.relocates f body)

def Expr.relocates (f : Range → Range) : List Expr → List Expr
  | [] => []
  | expr :: exprs => expr.relocate f :: Expr.relocates f exprs

def Expr.optionRelocate (f : Range → Range) : Option Expr → Option Expr
  | none => none
  | some expr => some (expr.relocate f)

def Stmt.relocate (f : Range → Range) : Stmt → Stmt
  | .expression range value => .expression (f range) (value.relocate f)
  | .declaration range kind declarators =>
    .declaration (f range) kind (Declarator.relocates f declarators)
  | .function range name parameters body =>
    .function (f range) (name.relocate f) (parameters.map (·.relocate f)) (Stmt.relocates f body)
  | .ifStmt range test body orElse =>
    .ifStmt (f range) (test.relocate f) (body.relocate f) (Stmt.optionRelocate f orElse)
  | .whileStmt range test body => .whileStmt (f range) (test.relocate f) (body.relocate f)
  | .doStmt range body test => .doStmt (f range) (body.relocate f) (test.relocate f)
  | .forStmt range init test update body =>
    .forStmt (f range) (Stmt.optionRelocate f init) (Expr.optionRelocate f test)
      (Expr.optionRelocate f update) (body.relocate f)
  | .forEach range kind left right body =>
    .forEach (f range) kind (left.relocate f) (right.relocate f) (body.relocate f)
  | .jump range kind label => .jump (f range) kind (label.map (·.relocate f))
  | .returnStmt range value => .returnStmt (f range) (Expr.optionRelocate f value)
  | .throwStmt range value => .throwStmt (f range) (value.relocate f)
  | .tryStmt range block handler finalizer =>
    .tryStmt (f range) (block.relocate f) (Handler.optionRelocate f handler)
      (Block.optionRelocate f finalizer)
  | .switchStmt range discriminant clauses =>
    .switchStmt (f range) (discriminant.relocate f) (Clause.relocates f clauses)
  | .block range body => .block (f range) (Stmt.relocates f body)
  | .labeled range label body => .labeled (f range) (label.relocate f) (body.relocate f)
  | .empty range => .empty (f range)
  | .debugger range => .debugger (f range)
  | .withStmt range object body => .withStmt (f range) (object.relocate f) (body.relocate f)

def Stmt.relocates (f : Range → Range) : List Stmt → List Stmt
  | [] => []
  | stmt :: stmts => stmt.relocate f :: Stmt.relocates f stmts

def Stmt.optionRelocate (f : Range → Range) : Option Stmt → Option Stmt
  | none => none
  | some stmt => some (stmt.relocate f)

def Declarator.relocates (f : Range → Range) : List Declarator → List Declarator
  | [] => []
  | ⟨range, name, init⟩ :: declarators =>
    ⟨f range, name.relocate f, Expr.optionRelocate f init⟩ :: Declarator.relocates f declarators

def Block.relocate (f : Range → Range) : Block → Block
  | ⟨range, body⟩ => ⟨f range, Stmt.relocates f body⟩

def Block.optionRelocate (f : Range → Range) : Option Block → Option Block
  | none => none
  | some block => some (block.relocate f)

def Handler.optionRelocate (f : Range → Range) : Option Handler → Option Handler
  | none => none
  | some ⟨range, parameter, body⟩ =>
    some ⟨f range, Expr.optionRelocate f parameter, body.relocate f⟩

def Clause.relocates (f : Range → Range) : List Clause → List Clause
  | [] => []
  | ⟨range, test, body⟩ :: clauses =>
    ⟨f range, Expr.optionRelocate f test, Stmt.relocates f body⟩ :: Clause.relocates f clauses

end

theorem Block.isNone_optionRelocate (f : Range → Range) (block : Option Block) :
    (Block.optionRelocate f block).isNone = block.isNone := by
  cases block <;> rfl

theorem Handler.isNone_optionRelocate (f : Range → Range) (handler : Option Handler) :
    (Handler.optionRelocate f handler).isNone = handler.isNone := by
  rcases handler with _ | ⟨range, parameter, body⟩ <;> rfl

/-- A body that is an expression elsewhere is one. -/
theorem Stmt.exists_of_relocates {f : Range → Range} {stmts : List Stmt} {range : Range}
    {expr : Expr} (h : Stmt.relocates f stmts = [.expression range expr]) :
    ∃ range' value, stmts = [.expression range' value] ∧ value.relocate f = expr := by
  rcases stmts with _ | ⟨stmt, _ | ⟨_, _⟩⟩
  · cases h
  · cases stmt with
    | expression range' value =>
      cases h
      exact ⟨range', value, rfl, rfl⟩
    | _ => cases h
  · cases (List.cons.inj h).2

/-- New places for the two ends of ranges. The start of the source stays where it is. -/
structure Placement where
  start : Nat → Nat
  stop : Nat → Nat
  start_zero : start 0 = 0
  stop_zero : stop 0 = 0

def Placement.place (placement : Placement) (range : Range) : Range :=
  ⟨placement.start range.start, placement.stop range.stop⟩

def Script.relocate (f : Range → Range) (script : Script) : Script :=
  ⟨f script.range, Stmt.relocates f script.body⟩

def Range.forget (_ : Range) : Range :=
  ⟨0, 0⟩

namespace Expr

def unplaced (expr : Expr) : Expr :=
  expr.relocate Range.forget

end Expr

namespace Stmt

def unplaced (stmt : Stmt) : Stmt :=
  stmt.relocate Range.forget

end Stmt

namespace Script

/-- The script without its ranges: two scripts that are equal in everything but the ranges become
the same. -/
def unplaced (script : Script) : Script :=
  script.relocate Range.forget

end Script

end FlowLint
