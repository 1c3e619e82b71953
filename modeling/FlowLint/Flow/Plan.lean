import FlowLint.Flow.Draft
import FlowLint.Flow.Scope

/-!
How a draft is to be changed, as data: what a statement adds is planned once, and a plan can be
carried out or looked at step by step.
-/
namespace FlowLint

/-- What a part of a plan is carried out inside of. -/
inductive Surrounding
  /-- A statement, on which nothing inside depends. -/
  | statement
  | breakable (breakable : Breakable)
  | throwTarget (target : Vertex)

def Scope.inside (surrounding : Surrounding) (scope : Scope) : Scope :=
  match surrounding with
  | .statement => scope
  | .breakable breakable => scope.push breakable
  | .throwTarget target => scope.throwingTo target

/-- A plan for changing a draft, with a result. -/
inductive Plan : Type → Type 1
  | give {α : Type} (a : α) : Plan α
  | andThen {α β : Type} (plan : Plan α) (next : α → Plan β) : Plan β
  /-- Looks at what surrounds the statement at hand, and at the draft. -/
  | see {α : Type} (read : Scope → Draft → α) : Plan α
  /-- Goes on with a result if there is one, and fails if not. -/
  | attempt {α : Type} (result : Except FlowError α) : Plan α
  | change (step : Draft.Step) : Plan Unit
  | inside {α : Type} (surrounding : Surrounding) (plan : Plan α) : Plan α

namespace Plan

instance : Monad Plan where
  pure := give
  bind := andThen

/-- The result of a plan that is carried out in a scope, with the draft that it leaves. -/
def run : {α : Type} → Plan α → Scope → Draft → Except FlowError (Draft × α)
  | _, give a, _, draft => .ok (draft, a)
  | _, andThen plan next, scope, draft => do
    let (draft, a) ← plan.run scope draft
    (next a).run scope draft
  | _, see read, scope, draft => .ok (draft, read scope draft)
  | _, attempt result, _, draft => do
    let a ← result
    return (draft, a)
  | _, change step, _, draft => .ok (step.apply draft, ())
  | _, inside surrounding plan, scope, draft => plan.run (scope.inside surrounding) draft

def build (plan : Plan Unit) (scope : Scope) (draft : Draft) : Except FlowError Draft := do
  let (draft, _) ← plan.run scope draft
  return draft

def here : Plan Vertex :=
  see fun _ draft => draft.here

def enter (target : Vertex) : Plan Unit :=
  change (.enterBlock (.jump (some target)))

def prepend (element : Element) : Plan Unit :=
  change (.prepend element)

def visiting {α : Type} (plan : Plan α) : Plan α :=
  inside .statement plan

def withBreakable {α : Type} (breakable : Breakable) (plan : Plan α) : Plan α :=
  inside (.breakable breakable) plan

def withThrowTarget {α : Type} (target : Vertex) (plan : Plan α) : Plan α :=
  inside (.throwTarget target) plan

/-- Builds into fresh blocks that flow to `successor`, and gives their entry. -/
def subFlow (successor : Vertex) (plan : Plan Unit) : Plan Vertex := do
  enter successor
  plan
  here

/-- Adds the update of a loop, and gives the vertex where the loop goes on after its body. -/
def addUpdate (guard : Vertex) : Option Element → Plan Vertex
  | none => return guard
  | some update => do
    enter guard
    prepend update
    here

/-- Adds a loop without entering it, and gives the vertices of its guard and of its body. -/
def loop (labels : List String) (edge : Vertex → RawEdge) (head : Element) (update : Option Element)
    (body : Plan Unit) : Plan (Vertex × Vertex) := do
  let after ← here
  let guard ← see fun _ draft => draft.blocks.length
  change (.addGuard (edge after) head)
  let again ← addUpdate (.block guard) update
  let entry ← withBreakable ⟨.loop, labels, some again, after⟩ (subFlow again body)
  change (.wire guard)
  return (.block guard, entry)

/-- Adds the part of a `try` that throws to `throwTarget`, and gives its entry. -/
def handling (throwTarget next : Vertex) (parameter : Option Element) (body : Plan Unit) :
    Plan Vertex := do
  let _ ← withThrowTarget throwTarget (subFlow next body)
  match parameter with
  | some parameter => prepend parameter
  | none => pure ()
  here

/-- Adds the tests of clauses beside the current block, each leading to its clause or to the next
test, and gives the vertex of the first one. Behind the last test is `other`. -/
def tests (other : Vertex) : (pos : Nat) → List (Clause × Vertex) → Plan Vertex
  | _, [] => return other
  | pos, (⟨_, none, body⟩, _) :: clauses => tests other (pos + Stmt.sizes body) clauses
  | pos, (⟨_, some test, body⟩, entry) :: clauses => do
    let next ← tests other (pos + test.size + Stmt.sizes body) clauses
    let vertex ← see fun _ draft => draft.next
    change (.addTest entry next ⟨pos, .expression test⟩)
    return vertex

end Plan

end FlowLint
