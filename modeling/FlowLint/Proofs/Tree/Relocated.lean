import FlowLint.Proofs.Tree.Relocation
import FlowLint.Tree.Body
import Mathlib.Data.List.Basic

namespace FlowLint
set_option autoImplicit true

variable {f : Range → Range}

mutual

@[simp] theorem Expr.size_relocate : ∀ expr : Expr, (expr.relocate f).size = expr.size
  | .name .. | .number .. | .string .. | .boolean .. | .null .. => by
    simp only [Expr.relocate, Expr.size]
  | .array _ elements | .sequence _ elements => by
    simp only [Expr.relocate, Expr.size, Expr.sizes_relocates elements]
  | .call _ callee arguments | .new _ callee arguments => by
    simp only [Expr.relocate, Expr.size, Expr.size_relocate callee, Expr.sizes_relocates arguments]
  | .member _ operand _ | .unary _ _ operand | .update _ _ _ operand => by
    simp only [Expr.relocate, Expr.size, Expr.size_relocate operand]
  | .subscript _ left right | .binary _ _ left right | .assign _ _ left right => by
    simp only [Expr.relocate, Expr.size, Expr.size_relocate left, Expr.size_relocate right]
  | .conditional _ test whenTrue whenFalse => by
    simp only [Expr.relocate, Expr.size, Expr.size_relocate test, Expr.size_relocate whenTrue,
      Expr.size_relocate whenFalse]
  | .function _ _ _ body => by simp only [Expr.relocate, Expr.size, Stmt.sizes_relocates body]

@[simp] theorem Expr.sizes_relocates :
    ∀ exprs : List Expr, Expr.sizes (Expr.relocates f exprs) = Expr.sizes exprs
  | [] => by simp only [Expr.relocates]
  | expr :: exprs => by
    simp only [Expr.relocates, Expr.sizes, Expr.size_relocate expr, Expr.sizes_relocates exprs]

@[simp] theorem Expr.optionSize_optionRelocate :
    ∀ expr : Option Expr, Expr.optionSize (Expr.optionRelocate f expr) = Expr.optionSize expr
  | none => by simp only [Expr.optionRelocate]
  | some expr => by simp only [Expr.optionRelocate, Expr.optionSize, Expr.size_relocate expr]

@[simp] theorem Stmt.size_relocate : ∀ stmt : Stmt, (stmt.relocate f).size = stmt.size
  | .jump .. | .empty _ | .debugger _ => by simp only [Stmt.relocate, Stmt.size]
  | .expression _ value | .throwStmt _ value => by
    simp only [Stmt.relocate, Stmt.size, Expr.size_relocate value]
  | .declaration _ _ declarators => by
    simp only [Stmt.relocate, Stmt.size, Declarator.sizes_relocates declarators]
  | .function _ _ _ body | .block _ body => by
    simp only [Stmt.relocate, Stmt.size, Stmt.sizes_relocates body]
  | .ifStmt _ test body orElse => by
    simp only [Stmt.relocate, Stmt.size, Expr.size_relocate test, Stmt.size_relocate body,
      Stmt.optionSize_optionRelocate orElse]
  | .whileStmt _ test body | .doStmt _ body test | .withStmt _ test body => by
    simp only [Stmt.relocate, Stmt.size, Expr.size_relocate test, Stmt.size_relocate body]
  | .forStmt _ init test update body => by
    simp only [Stmt.relocate, Stmt.size, Stmt.optionSize_optionRelocate init,
      Expr.optionSize_optionRelocate test, Expr.optionSize_optionRelocate update,
      Stmt.size_relocate body]
  | .forEach _ _ left right body => by
    simp only [Stmt.relocate, Stmt.size, Stmt.size_relocate left, Expr.size_relocate right,
      Stmt.size_relocate body]
  | .returnStmt _ value => by
    simp only [Stmt.relocate, Stmt.size, Expr.optionSize_optionRelocate value]
  | .tryStmt _ block handler finalizer => by
    simp only [Stmt.relocate, Stmt.size, Block.size_relocate block,
      Handler.optionSize_optionRelocate handler, Block.optionSize_optionRelocate finalizer]
  | .switchStmt _ discriminant clauses => by
    simp only [Stmt.relocate, Stmt.size, Expr.size_relocate discriminant,
      Clause.sizes_relocates clauses]
  | .labeled _ _ body => by simp only [Stmt.relocate, Stmt.size, Stmt.size_relocate body]

@[simp] theorem Stmt.sizes_relocates :
    ∀ stmts : List Stmt, Stmt.sizes (Stmt.relocates f stmts) = Stmt.sizes stmts
  | [] => by simp only [Stmt.relocates]
  | stmt :: stmts => by
    simp only [Stmt.relocates, Stmt.sizes, Stmt.size_relocate stmt, Stmt.sizes_relocates stmts]

@[simp] theorem Stmt.optionSize_optionRelocate :
    ∀ stmt : Option Stmt, Stmt.optionSize (Stmt.optionRelocate f stmt) = Stmt.optionSize stmt
  | none => by simp only [Stmt.optionRelocate]
  | some stmt => by simp only [Stmt.optionRelocate, Stmt.optionSize, Stmt.size_relocate stmt]

@[simp] theorem Declarator.sizes_relocates : ∀ declarators : List Declarator,
    Declarator.sizes (Declarator.relocates f declarators) = Declarator.sizes declarators
  | [] => by simp only [Declarator.relocates]
  | ⟨_, _, init⟩ :: declarators => by
    simp only [Declarator.relocates, Declarator.sizes, Expr.optionSize_optionRelocate init,
      Declarator.sizes_relocates declarators]

@[simp] theorem Block.size_relocate : ∀ block : Block, (block.relocate f).size = block.size
  | ⟨_, body⟩ => by simp only [Block.relocate, Block.size, Stmt.sizes_relocates body]

@[simp] theorem Block.optionSize_optionRelocate :
    ∀ block : Option Block, Block.optionSize (Block.optionRelocate f block) = Block.optionSize block
  | none => by simp only [Block.optionRelocate]
  | some block => by simp only [Block.optionRelocate, Block.optionSize, Block.size_relocate block]

@[simp] theorem Handler.optionSize_optionRelocate : ∀ handler : Option Handler,
    Handler.optionSize (Handler.optionRelocate f handler) = Handler.optionSize handler
  | none => by simp only [Handler.optionRelocate]
  | some ⟨_, parameter, body⟩ => by
    simp only [Handler.optionRelocate, Handler.optionSize, Expr.optionSize_optionRelocate parameter,
      Block.size_relocate body]

@[simp] theorem Clause.sizes_relocates : ∀ clauses : List Clause,
    Clause.sizes (Clause.relocates f clauses) = Clause.sizes clauses
  | [] => by simp only [Clause.relocates]
  | ⟨_, test, body⟩ :: clauses => by
    simp only [Clause.relocates, Clause.sizes, Expr.optionSize_optionRelocate test,
      Stmt.sizes_relocates body, Clause.sizes_relocates clauses]

end

def Node.relocate (f : Range → Range) : Node → Node
  | .statement stmt => .statement (stmt.relocate f)
  | .expression expr => .expression (expr.relocate f)

def Element.relocate (f : Range → Range) (element : Element) : Element :=
  ⟨element.position, element.node.relocate f⟩

@[simp] theorem Element.relocate_expression (pos : Nat) (expr : Expr) :
    relocate f ⟨pos, .expression expr⟩ = ⟨pos, .expression (expr.relocate f)⟩ :=
  rfl

@[simp] theorem Element.relocate_statement (pos : Nat) (stmt : Stmt) :
    relocate f ⟨pos, .statement stmt⟩ = ⟨pos, .statement (stmt.relocate f)⟩ :=
  rfl

namespace Event

def relocate (f : Range → Range) : Event → Event
  | node element => node (element.relocate f)
  | body stmts => body (Stmt.relocates f stmts)
  | handler range => handler (f range)
  | clause range isDefault => clause (f range) isDefault

theorem elements_relocate (events : List Event) :
    elements (events.map (relocate f)) = (elements events).map (·.relocate f) := by
  rw [elements, List.filterMap_map, elements, List.map_filterMap]
  apply List.filterMap_congr
  intro event _
  cases event <;> rfl

@[simp] theorem relocate_node (element : Element) :
    relocate f (node element) = node (element.relocate f) :=
  rfl

@[simp] theorem relocate_body (stmts : List Stmt) :
    relocate f (body stmts) = body (Stmt.relocates f stmts) :=
  rfl

@[simp] theorem relocate_handler (range : Range) :
    relocate f (handler range) = handler (f range) :=
  rfl

@[simp] theorem relocate_clause (range : Range) (isDefault : Bool) :
    relocate f (clause range isDefault) = clause (f range) isDefault :=
  rfl

end Event

open Event (relocate)

@[simp] theorem Expr.isNone_optionRelocate (expr : Option Expr) :
    (Expr.optionRelocate f expr).isNone = expr.isNone := by
  cases expr <;> simp [Expr.optionRelocate]

mutual

theorem Expr.walk_relocate (extent : Extent) : ∀ (pos : Nat) (expr : Expr),
    (expr.relocate f).walk extent pos = (expr.walk extent pos).map (relocate f)
  | _, .name .. | _, .number .. | _, .string .. | _, .boolean .. | _, .null .. => by
    simp [Expr.relocate, Expr.walk]
  | _, .array _ elements | _, .sequence _ elements => by
    simp [Expr.relocate, Expr.walk, Expr.walks_relocate extent _ elements]
  | _, .call _ callee arguments | _, .new _ callee arguments => by
    simp [Expr.relocate, Expr.walk, Expr.walk_relocate extent _ callee,
      Expr.walks_relocate extent _ arguments]
  | _, .member _ operand _ | _, .unary _ _ operand | _, .update _ _ _ operand => by
    simp [Expr.relocate, Expr.walk, Expr.walk_relocate extent _ operand]
  | _, .subscript _ left right | _, .binary _ _ left right | _, .assign _ _ left right => by
    simp [Expr.relocate, Expr.walk, Expr.walk_relocate extent _ left,
      Expr.walk_relocate extent _ right]
  | _, .conditional _ test whenTrue whenFalse => by
    simp [Expr.relocate, Expr.walk, Expr.walk_relocate extent _ test,
      Expr.walk_relocate extent _ whenTrue, Expr.walk_relocate extent _ whenFalse]
  | _, .function _ _ _ body => by
    cases extent <;>
      simp [Expr.relocate, Expr.walk, Extent.intoFunction, Stmt.walks_relocate _ _ body]

theorem Expr.walks_relocate (extent : Extent) : ∀ (pos : Nat) (exprs : List Expr),
    Expr.walks extent pos (Expr.relocates f exprs) = (Expr.walks extent pos exprs).map (relocate f)
  | _, [] => by simp [Expr.relocates, Expr.walks]
  | _, expr :: exprs => by
    simp [Expr.relocates, Expr.walks, Expr.walk_relocate extent _ expr,
      Expr.walks_relocate extent _ exprs]

theorem Expr.optionWalk_relocate (extent : Extent) : ∀ (pos : Nat) (expr : Option Expr),
    Expr.optionWalk extent pos (Expr.optionRelocate f expr) =
      (Expr.optionWalk extent pos expr).map (relocate f)
  | _, none => by simp [Expr.optionRelocate, Expr.optionWalk]
  | _, some expr => by
    simp [Expr.optionRelocate, Expr.optionWalk, Expr.walk_relocate extent _ expr]

theorem Stmt.walk_relocate (extent : Extent) : ∀ (pos : Nat) (stmt : Stmt),
    (stmt.relocate f).walk extent pos = (stmt.walk extent pos).map (relocate f)
  | _, .jump .. | _, .empty _ | _, .debugger _ => by simp [Stmt.relocate, Stmt.walk]
  | _, .expression _ value | _, .throwStmt _ value => by
    simp [Stmt.relocate, Stmt.walk, Expr.walk_relocate extent _ value]
  | _, .declaration _ _ declarators => by
    simp [Stmt.relocate, Stmt.walk, Declarator.walks_relocate extent _ declarators]
  | _, .function _ _ _ body => by
    cases extent <;>
      simp [Stmt.relocate, Stmt.walk, Extent.intoFunction, Stmt.walks_relocate _ _ body]
  | _, .block _ body => by simp [Stmt.relocate, Stmt.walk, Stmt.walks_relocate extent _ body]
  | _, .ifStmt _ test body orElse => by
    simp [Stmt.relocate, Stmt.walk, Expr.walk_relocate extent _ test,
      Stmt.walk_relocate extent _ body, Stmt.optionWalk_relocate extent _ orElse]
  | _, .whileStmt _ test body | _, .doStmt _ body test | _, .withStmt _ test body => by
    simp [Stmt.relocate, Stmt.walk, Expr.walk_relocate extent _ test,
      Stmt.walk_relocate extent _ body]
  | _, .forStmt _ init test update body => by
    simp [Stmt.relocate, Stmt.walk, Stmt.optionWalk_relocate extent _ init,
      Expr.optionWalk_relocate extent _ test, Expr.optionWalk_relocate extent _ update,
      Stmt.walk_relocate extent _ body]
  | _, .forEach _ _ left right body => by
    simp [Stmt.relocate, Stmt.walk, Stmt.walk_relocate extent _ left,
      Expr.walk_relocate extent _ right, Stmt.walk_relocate extent _ body]
  | _, .returnStmt _ value => by
    simp [Stmt.relocate, Stmt.walk, Expr.optionWalk_relocate extent _ value]
  | _, .tryStmt _ block handler finalizer => by
    simp [Stmt.relocate, Stmt.walk, Block.walk_relocate extent _ block,
      Handler.optionWalk_relocate extent _ handler, Block.optionWalk_relocate extent _ finalizer]
  | _, .switchStmt _ discriminant clauses => by
    simp [Stmt.relocate, Stmt.walk, Expr.walk_relocate extent _ discriminant,
      Clause.walks_relocate extent _ clauses]
  | _, .labeled _ _ body => by simp [Stmt.relocate, Stmt.walk, Stmt.walk_relocate extent _ body]

theorem Stmt.walks_relocate (extent : Extent) : ∀ (pos : Nat) (stmts : List Stmt),
    Stmt.walks extent pos (Stmt.relocates f stmts) = (Stmt.walks extent pos stmts).map (relocate f)
  | _, [] => by simp [Stmt.relocates, Stmt.walks]
  | _, stmt :: stmts => by
    simp [Stmt.relocates, Stmt.walks, Stmt.walk_relocate extent _ stmt,
      Stmt.walks_relocate extent _ stmts]

theorem Stmt.optionWalk_relocate (extent : Extent) : ∀ (pos : Nat) (stmt : Option Stmt),
    Stmt.optionWalk extent pos (Stmt.optionRelocate f stmt) =
      (Stmt.optionWalk extent pos stmt).map (relocate f)
  | _, none => by simp [Stmt.optionRelocate, Stmt.optionWalk]
  | _, some stmt => by
    simp [Stmt.optionRelocate, Stmt.optionWalk, Stmt.walk_relocate extent _ stmt]

theorem Declarator.walks_relocate (extent : Extent) : ∀ (pos : Nat) (declarators : List Declarator),
    Declarator.walks extent pos (Declarator.relocates f declarators) =
      (Declarator.walks extent pos declarators).map (relocate f)
  | _, [] => by simp [Declarator.relocates, Declarator.walks]
  | _, ⟨_, _, init⟩ :: declarators => by
    simp [Declarator.relocates, Declarator.walks, Expr.optionWalk_relocate extent _ init,
      Declarator.walks_relocate extent _ declarators]

theorem Block.walk_relocate (extent : Extent) : ∀ (pos : Nat) (block : Block),
    (block.relocate f).walk extent pos = (block.walk extent pos).map (relocate f)
  | _, ⟨_, body⟩ => by simp [Block.relocate, Block.walk, Stmt.walks_relocate extent _ body]

theorem Block.optionWalk_relocate (extent : Extent) : ∀ (pos : Nat) (block : Option Block),
    Block.optionWalk extent pos (Block.optionRelocate f block) =
      (Block.optionWalk extent pos block).map (relocate f)
  | _, none => by simp [Block.optionRelocate, Block.optionWalk]
  | _, some block => by
    simp [Block.optionRelocate, Block.optionWalk, Block.walk_relocate extent _ block]

theorem Handler.optionWalk_relocate (extent : Extent) : ∀ (pos : Nat) (handler : Option Handler),
    Handler.optionWalk extent pos (Handler.optionRelocate f handler) =
      (Handler.optionWalk extent pos handler).map (relocate f)
  | _, none => by simp [Handler.optionRelocate, Handler.optionWalk]
  | _, some ⟨_, parameter, body⟩ => by
    simp [Handler.optionRelocate, Handler.optionWalk, Expr.optionWalk_relocate extent _ parameter,
      Block.walk_relocate extent _ body]

theorem Clause.walks_relocate (extent : Extent) : ∀ (pos : Nat) (clauses : List Clause),
    Clause.walks extent pos (Clause.relocates f clauses) =
      (Clause.walks extent pos clauses).map (relocate f)
  | _, [] => by simp [Clause.relocates, Clause.walks]
  | _, ⟨_, test, body⟩ :: clauses => by
    simp [Clause.relocates, Clause.walks, Expr.optionWalk_relocate extent _ test,
      Stmt.walks_relocate extent _ body, Clause.walks_relocate extent _ clauses]

end

@[simp] theorem Expr.range_relocate (expr : Expr) : (expr.relocate f).range = f expr.range := by
  cases expr <;> simp only [Expr.relocate, Expr.range]

@[simp] theorem Stmt.range_relocate (stmt : Stmt) : (stmt.relocate f).range = f stmt.range := by
  cases stmt <;> simp only [Stmt.relocate, Stmt.range]

@[simp] theorem Element.range_relocate (element : Element) :
    (element.relocate f).range = f element.range := by
  obtain ⟨position, stmt | expr⟩ := element
  · exact stmt.range_relocate
  · exact expr.range_relocate

def Owner.relocate (f : Range → Range) : Owner → Owner
  | .script => .script
  | .declaration name => .declaration (name.relocate f)
  | .expression name => .expression (name.map (·.relocate f))

def Body.relocate (f : Range → Range) (body : Body) : Body :=
  ⟨body.owner.relocate f, f body.range, body.position, Stmt.relocates f body.stmts⟩

theorem Body.ofElement?_relocate (element : Element) :
    ofElement? (element.relocate f) = (ofElement? element).map (·.relocate f) := by
  obtain ⟨position, stmt | expr⟩ := element
  · cases stmt with
    | function => simp only [Element.relocate, Node.relocate, Stmt.relocate]; rfl
    | _ => simp only [Element.relocate, Node.relocate, Stmt.relocate, ofElement?, Option.map_none]
  · cases expr with
    | function => simp only [Element.relocate, Node.relocate, Expr.relocate]; rfl
    | _ => simp only [Element.relocate, Node.relocate, Expr.relocate, ofElement?, Option.map_none]

theorem Script.bodies_relocate (script : Script) :
    (script.relocate f).bodies = script.bodies.map (·.relocate f) := by
  have hwalk : (script.relocate f).walk = script.walk.map (Event.relocate f) :=
    congrArg _ (Stmt.walks_relocate .deep 0 script.body)
  rw [bodies, hwalk, Event.elements_relocate, List.filterMap_map, bodies, List.map_cons,
    List.map_filterMap]
  congr 1
  exact List.filterMap_congr fun element _ => Body.ofElement?_relocate element

end FlowLint
