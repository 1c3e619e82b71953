import FlowLint.Tree.Size

/-!
The order in which the nodes of a syntax tree are evaluated, and their positions in it. A position
counts the statements and expressions met before; it tells apart nodes that look the same.
-/
namespace FlowLint

inductive Node
  | statement (stmt : Stmt)
  | expression (expr : Expr)
deriving Inhabited

def Node.range : Node → Range
  | .statement stmt => stmt.range
  | .expression expr => expr.range

/-- A node with its position. -/
structure Element where
  position : Nat
  node : Node
deriving Inhabited

def Element.range (element : Element) : Range :=
  element.node.range

instance : Ranged Element := ⟨Element.range⟩

/-- What a walk meets: nodes, lists of statements, and clauses. -/
inductive Event
  | node (element : Element)
  | body (stmts : List Stmt)
  | handler (range : Range)
  | clause (range : Range) (isDefault : Bool)

/-- How far a walk goes: into the bodies of nested functions, or only up to them. -/
inductive Extent
  | deep | shallow
deriving DecidableEq, Repr

def Extent.intoFunction (extent : Extent) (events : List Event) : List Event :=
  match extent with
  | deep => events
  | shallow => []

mutual

def Expr.walk (extent : Extent) (pos : Nat) (expr : Expr) : List Event :=
  .node ⟨pos, .expression expr⟩ ::
  match expr with
  | .name .. | .number .. | .string .. | .boolean .. | .null .. => []
  | .array _ elements | .sequence _ elements => Expr.walks extent (pos + 1) elements
  | .call _ callee arguments | .new _ callee arguments =>
    callee.walk extent (pos + 1) ++ Expr.walks extent (pos + 1 + callee.size) arguments
  | .member _ object _ => object.walk extent (pos + 1)
  | .subscript _ object index =>
    object.walk extent (pos + 1) ++ index.walk extent (pos + 1 + object.size)
  | .unary _ _ operand => operand.walk extent (pos + 1)
  | .update _ _ _ target => target.walk extent (pos + 1)
  | .binary _ _ left right =>
    left.walk extent (pos + 1) ++ right.walk extent (pos + 1 + left.size)
  | .assign _ _ target value =>
    value.walk extent (pos + 1) ++ target.walk extent (pos + 1 + value.size)
  | .conditional _ test whenTrue whenFalse =>
    test.walk extent (pos + 1) ++ whenTrue.walk extent (pos + 1 + test.size) ++
      whenFalse.walk extent (pos + 1 + test.size + whenTrue.size)
  | .function _ _ _ body =>
    extent.intoFunction (.body body :: Stmt.walks extent (pos + 1) body)

def Expr.walks (extent : Extent) (pos : Nat) : List Expr → List Event
  | [] => []
  | expr :: exprs => expr.walk extent pos ++ Expr.walks extent (pos + expr.size) exprs

def Expr.optionWalk (extent : Extent) (pos : Nat) : Option Expr → List Event
  | none => []
  | some expr => expr.walk extent pos

/-- Walks a statement whose position is `pos`. -/
def Stmt.walk (extent : Extent) (pos : Nat) (stmt : Stmt) : List Event :=
  .node ⟨pos, .statement stmt⟩ ::
  match stmt with
  | .expression _ value => value.walk extent (pos + 1)
  | .declaration _ _ declarators => Declarator.walks extent (pos + 1) declarators
  | .function _ _ _ body =>
    extent.intoFunction (.body body :: Stmt.walks extent (pos + 1) body)
  | .ifStmt _ test body orElse =>
    test.walk extent (pos + 1) ++ body.walk extent (pos + 1 + test.size) ++
      Stmt.optionWalk extent (pos + 1 + test.size + body.size) orElse
  | .whileStmt _ test body =>
    test.walk extent (pos + 1) ++ body.walk extent (pos + 1 + test.size)
  | .doStmt _ body test =>
    body.walk extent (pos + 1) ++ test.walk extent (pos + 1 + body.size)
  | .forStmt _ init test update body =>
    Stmt.optionWalk extent (pos + 1) init ++
      Expr.optionWalk extent (pos + 1 + Stmt.optionSize init) test ++
      body.walk extent (pos + 1 + Stmt.optionSize init + Expr.optionSize test) ++
      Expr.optionWalk extent
        (pos + 1 + Stmt.optionSize init + Expr.optionSize test + body.size) update
  | .forEach _ _ left right body =>
    right.walk extent (pos + 1) ++ left.walk extent (pos + 1 + right.size) ++
      body.walk extent (pos + 1 + right.size + left.size)
  | .jump .. | .empty _ | .debugger _ => []
  | .returnStmt _ value => Expr.optionWalk extent (pos + 1) value
  | .throwStmt _ value => value.walk extent (pos + 1)
  | .tryStmt _ block handler finalizer =>
    block.walk extent (pos + 1) ++ Handler.optionWalk extent (pos + 1 + block.size) handler ++
      Block.optionWalk extent (pos + 1 + block.size + Handler.optionSize handler) finalizer
  | .switchStmt _ discriminant clauses =>
    discriminant.walk extent (pos + 1) ++
      Clause.walks extent (pos + 1 + discriminant.size) clauses
  | .block _ body => .body body :: Stmt.walks extent (pos + 1) body
  | .labeled _ _ body => body.walk extent (pos + 1)
  | .withStmt _ object body =>
    object.walk extent (pos + 1) ++ body.walk extent (pos + 1 + object.size)

def Stmt.walks (extent : Extent) (pos : Nat) : List Stmt → List Event
  | [] => []
  | stmt :: stmts => stmt.walk extent pos ++ Stmt.walks extent (pos + stmt.size) stmts

def Stmt.optionWalk (extent : Extent) (pos : Nat) : Option Stmt → List Event
  | none => []
  | some stmt => stmt.walk extent pos

def Declarator.walks (extent : Extent) (pos : Nat) : List Declarator → List Event
  | [] => []
  | ⟨_, _, init⟩ :: declarators =>
    Expr.optionWalk extent pos init ++
      Declarator.walks extent (pos + Expr.optionSize init) declarators

def Block.walk (extent : Extent) (pos : Nat) : Block → List Event
  | ⟨_, body⟩ => .body body :: Stmt.walks extent pos body

def Block.optionWalk (extent : Extent) (pos : Nat) : Option Block → List Event
  | none => []
  | some block => block.walk extent pos

def Handler.optionWalk (extent : Extent) (pos : Nat) : Option Handler → List Event
  | none => []
  | some ⟨range, parameter, body⟩ =>
    .handler range :: (Expr.optionWalk extent pos parameter ++
      body.walk extent (pos + Expr.optionSize parameter))

def Clause.walks (extent : Extent) (pos : Nat) : List Clause → List Event
  | [] => []
  | ⟨range, test, body⟩ :: clauses =>
    .clause range test.isNone :: (Expr.optionWalk extent pos test ++
      .body body :: Stmt.walks extent (pos + Expr.optionSize test) body) ++
      Clause.walks extent (pos + Expr.optionSize test + Stmt.sizes body) clauses

end

def Script.walk (script : Script) : List Event :=
  .body script.body :: Stmt.walks .deep 0 script.body

def Event.elements (events : List Event) : List Element :=
  events.filterMap fun
    | .node element => some element
    | _ => none

end FlowLint
