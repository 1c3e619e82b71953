import FlowLint.Tree.Body
import Mathlib.Data.List.Nodup
import Mathlib.Data.List.Perm.Basic

/-!
Walks number the nodes they meet. A walk into nested functions meets every node once, under numbers
that follow each other; the walks up to nested functions share these nodes out among the bodies.
-/
namespace FlowLint
set_option autoImplicit true

/-- A walk into nested functions beside the one over the same part of a tree that stops at them.
The first meets `size` nodes, from the position `pos` on. -/
inductive Walked : (pos : Nat) → (deep shallow : List Event) → (size : Nat) → Prop
  | nil : Walked pos [] [] 0
  | append (h : Walked pos deep shallow size) (h' : Walked (pos + size) deep' shallow' size') :
      Walked pos (deep ++ deep') (shallow ++ shallow') (size + size')
  | mark {event : Event} (he : Event.elements [event] = []) (h : Walked pos deep shallow size) :
      Walked pos (event :: deep) (event :: shallow) size
  | node (hn : Body.ofElement? ⟨pos, node⟩ = none) (h : Walked (pos + 1) deep shallow size) :
      Walked pos (.node ⟨pos, node⟩ :: deep) (.node ⟨pos, node⟩ :: shallow) (1 + size)
  | function (body : Body) (hn : Body.ofElement? ⟨pos, node⟩ = some body)
      (h : Walked (pos + 1) (Stmt.walks .deep body.position body.stmts)
        (Stmt.walks .shallow body.position body.stmts) size) :
      Walked pos (.node ⟨pos, node⟩ :: .body body.stmts :: Stmt.walks .deep body.position body.stmts)
        [.node ⟨pos, node⟩] (1 + size)

theorem Walked.resize (h : Walked pos deep shallow size) (hs : size = size') :
    Walked pos deep shallow size' :=
  hs ▸ h

mutual

theorem Expr.walked (pos : Nat) (expr : Expr) :
    Walked pos (expr.walk .deep pos) (expr.walk .shallow pos) expr.size := by
  cases expr with
  | name | number | string | boolean | null => exact .node rfl .nil
  | array range elements | sequence range elements => exact .node rfl (Expr.walks_walked _ elements)
  | call range callee arguments | new range callee arguments =>
    refine (Walked.node rfl ?_).resize (Nat.add_assoc ..).symm
    exact .append (callee.walked _) (Expr.walks_walked _ arguments)
  | member range object property => exact .node rfl (object.walked _)
  | subscript range object index =>
    refine (Walked.node rfl ?_).resize (Nat.add_assoc ..).symm
    exact .append (object.walked _) (index.walked _)
  | unary range op operand => exact .node rfl (operand.walked _)
  | update range op fixity target => exact .node rfl (target.walked _)
  | binary range op left right =>
    refine (Walked.node rfl ?_).resize (Nat.add_assoc ..).symm
    exact .append (left.walked _) (right.walked _)
  | assign range op target value =>
    refine (Walked.node rfl ?_).resize (Nat.add_assoc ..).symm
    exact .append (value.walked _) (target.walked _)
  | conditional range test whenTrue whenFalse =>
    simp only [Expr.walk, List.append_assoc]
    refine (Walked.node rfl (.append (test.walked _)
      (.append (whenTrue.walked _) (whenFalse.walked _)))).resize ?_
    simp only [Expr.size, Nat.add_assoc]
  | function range name parameters body =>
    exact .function ⟨.expression name, range, pos + 1, body⟩ rfl (Stmt.walks_walked _ body)

theorem Expr.walks_walked (pos : Nat) (exprs : List Expr) :
    Walked pos (Expr.walks .deep pos exprs) (Expr.walks .shallow pos exprs) (Expr.sizes exprs) := by
  cases exprs with
  | nil => exact .nil
  | cons expr exprs => exact .append (expr.walked _) (Expr.walks_walked _ exprs)

theorem Expr.optionWalk_walked (pos : Nat) (expr : Option Expr) :
    Walked pos (Expr.optionWalk .deep pos expr) (Expr.optionWalk .shallow pos expr)
      (Expr.optionSize expr) := by
  cases expr with
  | none => exact .nil
  | some expr => exact expr.walked _

theorem Stmt.walked (pos : Nat) (stmt : Stmt) :
    Walked pos (stmt.walk .deep pos) (stmt.walk .shallow pos) stmt.size := by
  cases stmt with
  | expression range value | throwStmt range value => exact .node rfl (value.walked _)
  | declaration range kind declarators => exact .node rfl (Declarator.walks_walked _ declarators)
  | function range name parameters body =>
    exact .function ⟨.declaration name, name.range, pos + 1, body⟩ rfl (Stmt.walks_walked _ body)
  | ifStmt range test body orElse =>
    simp only [Stmt.walk, List.append_assoc]
    refine (Walked.node rfl (.append (test.walked _) (.append (body.walked _)
      (Stmt.optionWalk_walked _ orElse)))).resize ?_
    simp only [Stmt.size, Nat.add_assoc]
  | whileStmt range test body | withStmt range test body =>
    refine (Walked.node rfl ?_).resize (Nat.add_assoc ..).symm
    exact .append (test.walked _) (body.walked _)
  | doStmt range body test =>
    refine (Walked.node rfl ?_).resize (Nat.add_assoc ..).symm
    exact .append (body.walked _) (test.walked _)
  | forStmt range init test update body =>
    simp only [Stmt.walk, List.append_assoc]
    refine (Walked.node rfl (.append (Stmt.optionWalk_walked _ init)
      (.append (Expr.optionWalk_walked _ test)
        (.append (body.walked _) (Expr.optionWalk_walked _ update))))).resize ?_
    simp only [Stmt.size, Nat.add_assoc]
  | forEach range kind left right body =>
    simp only [Stmt.walk, List.append_assoc]
    refine (Walked.node rfl (.append (right.walked _)
      (.append (left.walked _) (body.walked _)))).resize ?_
    simp only [Stmt.size, Nat.add_assoc]
  | jump | empty | debugger => exact .node rfl .nil
  | returnStmt range value => exact .node rfl (Expr.optionWalk_walked _ value)
  | tryStmt range block handler finalizer =>
    simp only [Stmt.walk, List.append_assoc]
    refine (Walked.node rfl (.append (block.walked _) (.append (Handler.optionWalk_walked _ handler)
      (Block.optionWalk_walked _ finalizer)))).resize ?_
    simp only [Stmt.size, Nat.add_assoc]
  | switchStmt range discriminant clauses =>
    refine (Walked.node rfl ?_).resize (Nat.add_assoc ..).symm
    exact .append (discriminant.walked _) (Clause.walks_walked _ clauses)
  | block range body => exact .node rfl (.mark rfl (Stmt.walks_walked _ body))
  | labeled range label body => exact .node rfl (body.walked _)

theorem Stmt.walks_walked (pos : Nat) (stmts : List Stmt) :
    Walked pos (Stmt.walks .deep pos stmts) (Stmt.walks .shallow pos stmts) (Stmt.sizes stmts) := by
  cases stmts with
  | nil => exact .nil
  | cons stmt stmts => exact .append (stmt.walked _) (Stmt.walks_walked _ stmts)

theorem Stmt.optionWalk_walked (pos : Nat) (stmt : Option Stmt) :
    Walked pos (Stmt.optionWalk .deep pos stmt) (Stmt.optionWalk .shallow pos stmt)
      (Stmt.optionSize stmt) := by
  cases stmt with
  | none => exact .nil
  | some stmt => exact stmt.walked _

theorem Declarator.walks_walked (pos : Nat) (declarators : List Declarator) :
    Walked pos (Declarator.walks .deep pos declarators) (Declarator.walks .shallow pos declarators)
      (Declarator.sizes declarators) := by
  match declarators with
  | [] => exact .nil
  | ⟨_, _, init⟩ :: declarators =>
    exact .append (Expr.optionWalk_walked _ init) (Declarator.walks_walked _ declarators)

theorem Block.walked (pos : Nat) (block : Block) :
    Walked pos (block.walk .deep pos) (block.walk .shallow pos) block.size := by
  obtain ⟨_, body⟩ := block
  exact .mark rfl (Stmt.walks_walked _ body)

theorem Block.optionWalk_walked (pos : Nat) (block : Option Block) :
    Walked pos (Block.optionWalk .deep pos block) (Block.optionWalk .shallow pos block)
      (Block.optionSize block) := by
  cases block with
  | none => exact .nil
  | some block => exact block.walked _

theorem Handler.optionWalk_walked (pos : Nat) (handler : Option Handler) :
    Walked pos (Handler.optionWalk .deep pos handler) (Handler.optionWalk .shallow pos handler)
      (Handler.optionSize handler) := by
  match handler with
  | none => exact .nil
  | some ⟨_, parameter, body⟩ =>
    exact .mark rfl (.append (Expr.optionWalk_walked _ parameter) (body.walked _))

theorem Clause.walks_walked (pos : Nat) (clauses : List Clause) :
    Walked pos (Clause.walks .deep pos clauses) (Clause.walks .shallow pos clauses)
      (Clause.sizes clauses) := by
  match clauses with
  | [] => exact .nil
  | ⟨_, test, body⟩ :: clauses =>
    refine .append (.mark rfl (.append (Expr.optionWalk_walked _ test) (.mark rfl
      (Stmt.walks_walked _ body)))) ?_
    rw [← Nat.add_assoc]
    exact Clause.walks_walked _ clauses

end

namespace Event

@[simp]
theorem elements_append (events events' : List Event) :
    elements (events ++ events') = elements events ++ elements events' :=
  List.filterMap_append ..

theorem elements_cons (event : Event) (events : List Event) :
    elements (event :: events) = elements [event] ++ elements events :=
  elements_append [event] events

@[simp]
theorem elements_node (element : Element) (events : List Event) :
    elements (node element :: events) = element :: elements events :=
  rfl

@[simp]
theorem elements_body (stmts : List Stmt) (events : List Event) :
    elements (body stmts :: events) = elements events :=
  rfl

@[simp]
theorem elements_handler (range : Range) (events : List Event) :
    elements (handler range :: events) = elements events :=
  rfl

@[simp]
theorem elements_clause (range : Range) (isDefault : Bool) (events : List Event) :
    elements (clause range isDefault :: events) = elements events :=
  rfl

end Event

/-- The nodes of a body, without those of the functions in it. -/
def Body.nodes (body : Body) : List Element :=
  Event.elements (Stmt.walks .shallow body.position body.stmts)

def Element.functionNodes (elements : List Element) : List Element :=
  (elements.filterMap Body.ofElement?).flatMap Body.nodes

theorem Element.functionNodes_append (elements elements' : List Element) :
    functionNodes (elements ++ elements') = functionNodes elements ++ functionNodes elements' := by
  simp [functionNodes]

namespace Walked

theorem positions (h : Walked pos deep shallow size) :
    (Event.elements deep).map (·.position) = List.range' pos size := by
  induction h with
  | nil => rfl
  | append _ _ ih ih' =>
    rw [Event.elements_append, List.map_append, ih, ih', List.range'_append_1]
  | mark he _ ih => rwa [Event.elements_cons, he]
  | node _ _ ih | function _ _ _ ih =>
    rw [Nat.add_comm, List.range'_succ, ← ih]
    rfl

theorem shared (h : Walked pos deep shallow size) :
    (Event.elements deep).Perm
      (Event.elements shallow ++ Element.functionNodes (Event.elements deep)) := by
  induction h with
  | nil => exact .refl _
  | @append _ deep shallow _ deep' shallow' _ _ _ ih ih' =>
    rw [Event.elements_append, Event.elements_append, Element.functionNodes_append]
    refine (ih.append ih').trans ?_
    rw [List.append_assoc, List.append_assoc]
    refine .append_left _ ?_
    rw [← List.append_assoc, ← List.append_assoc]
    exact .append_right _ List.perm_append_comm
  | mark he _ ih =>
    rw [Event.elements_cons, he, Event.elements_cons _ (_ : List Event), he]
    exact ih
  | node hn _ ih =>
    rw [Event.elements_node, Event.elements_node, Element.functionNodes, List.filterMap_cons_none hn]
    exact ih.cons _
  | function body hn _ ih =>
    rw [Event.elements_node, Event.elements_node, Element.functionNodes, List.filterMap_cons_some hn]
    exact ih.cons _

theorem sublist (h : Walked pos deep shallow size) :
    (Event.elements shallow).Sublist (Event.elements deep) := by
  induction h with
  | nil => exact .refl _
  | append _ _ ih ih' =>
    rw [Event.elements_append, Event.elements_append]
    exact ih.append ih'
  | mark he _ ih =>
    rw [Event.elements_cons, he, Event.elements_cons _ (_ : List Event), he]
    exact ih
  | node _ _ ih => exact ih.cons_cons _
  | function => exact (List.nil_sublist _).cons_cons _

end Walked

theorem Body.nodes_nodup (body : Body) : (body.nodes.map (·.position)).Nodup := by
  have hw := Stmt.walks_walked body.position body.stmts
  refine (hw.sublist.map (·.position)).nodup ?_
  rw [hw.positions]
  exact List.nodup_range'

namespace Script

theorem positions (script : Script) :
    (Event.elements script.walk).map (·.position) = List.range (Stmt.sizes script.body) := by
  rw [List.range_eq_range']
  exact (Stmt.walks_walked 0 script.body).positions

/-- The bodies of a script share out its nodes. -/
theorem nodes_perm (script : Script) :
    (script.bodies.flatMap Body.nodes).Perm (Event.elements script.walk) :=
  (Stmt.walks_walked 0 script.body).shared.symm

theorem nodes_nodup (script : Script) :
    ((script.bodies.flatMap Body.nodes).map (·.position)).Nodup := by
  rw [((nodes_perm script).map _).nodup_iff, positions]
  exact List.nodup_range

end Script

end FlowLint
