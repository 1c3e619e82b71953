import FlowLint.Flow.Vertex
import FlowLint.Source.Range

/-!
Graphs under construction. The guard of a loop is made before the body it leads to, so an edge may
still lack a target.
-/
namespace FlowLint

inductive RawEdge
  | jump (target : Option Vertex)
  | branch (onTrue : Option Vertex) (onFalse : Vertex)
deriving DecidableEq, Repr, Inhabited

structure RawBlock (α : Type) where
  elements : List α
  edge : RawEdge
deriving DecidableEq, Repr, Inhabited

namespace RawBlock

variable {α : Type}

def ofEdge (edge : RawEdge) : RawBlock α :=
  ⟨[], edge⟩

def isEmpty (block : RawBlock α) : Bool :=
  block.elements.isEmpty

def prepend (element : α) (block : RawBlock α) : RawBlock α :=
  { block with elements := element :: block.elements }

def start? [Ranged α] (block : RawBlock α) : Option Nat :=
  block.elements.head?.map fun element => (Ranged.range element).start

/-- Points the missing target of a loop guard at the body of the loop. -/
def enterLoop (body : Vertex) (block : RawBlock α) : RawBlock α :=
  match block.edge with
  | .jump none => { block with edge := .jump (some body) }
  | .branch none onFalse => { block with edge := .branch (some body) onFalse }
  | _ => block

end RawBlock

/-- Blocks in the order of their creation, and the vertex where runs begin. -/
structure RawGraph (α : Type) where
  blocks : List (RawBlock α)
  start : Vertex
deriving DecidableEq, Repr, Inhabited

end FlowLint
