import FlowLint.Flow.Graph
import FlowLint.Flow.Raw
import Mathlib.Logic.Relation

/-!
What a walk through a graph reads: the elements of the blocks it passes, and the side by which it
leaves each branch. Graphs under construction and finished ones are charts alike, so their readings
can be compared.
-/
namespace FlowLint
set_option autoImplicit true

namespace Vertex

def map (place : Nat → Nat) : Vertex → Vertex
  | .block index => .block (place index)
  | .exit => .exit

/-- Whether a vertex is the exit or one of the first `size` blocks. -/
def Within (size : Nat) : Vertex → Prop
  | .block index => index < size
  | .exit => True

instance (size : Nat) (vertex : Vertex) : Decidable (vertex.Within size) :=
  match vertex with
  | .block index => inferInstanceAs (Decidable (index < size))
  | .exit => inferInstanceAs (Decidable True)

@[simp]
theorem within_block : (block index).Within size ↔ index < size :=
  Iff.rfl

@[simp]
theorem within_exit : exit.Within size :=
  trivial

/-- The strict order of vertices: blocks by number, the exit last. -/
def Before (left right : Vertex) : Prop :=
  left.le right = true ∧ left ≠ right

theorem Within.mono {vertex : Vertex} (h : vertex.Within n) (hn : n ≤ m) : vertex.Within m := by
  cases vertex with
  | exit => trivial
  | block index => exact Nat.lt_of_lt_of_le h hn

end Vertex

/-- What a walk reads: an element of a block, or the side by which it leaves a branch. -/
inductive Letter (α : Type)
  | element (element : α)
  | side (taken : Bool)
deriving DecidableEq, Repr

/-- How the reading of a walk ends: at the exit, or anywhere before. -/
inductive Ending
  | finished
  | interrupted
deriving DecidableEq, Repr

/-- A set of words, each with the way its reading ends. -/
abbrev Reading (α : Type) : Type :=
  List (Letter α) → Ending → Prop

/-- The elements at each vertex, and the ways out of it: the side taken, if there is a choice, and
the vertex behind. -/
structure Chart (α : Type) where
  elements : Vertex → List α
  ways : Vertex → List (Option Bool × Vertex)
  ways_exit : ways .exit = [] := by rfl

namespace Chart

def Leads (chart : Chart α) (source target : Vertex) : Prop :=
  ∃ side, (side, target) ∈ chart.ways source

/-- What is read on the way through a vertex that is left by a side. -/
def passage (chart : Chart α) (vertex : Vertex) (side : Option Bool) : List (Letter α) :=
  (chart.elements vertex).map .element ++ side.toList.map .side

/-- What walks from a vertex read. A walk may be interrupted within the elements of a vertex. -/
inductive Reads (chart : Chart α) : Vertex → Reading α
  | finish : chart.Reads .exit [] .finished
  | stop (h : word <+: (chart.elements vertex).map .element) :
      chart.Reads vertex word .interrupted
  | pass (h : (side, next) ∈ chart.ways vertex) (hr : chart.Reads next word ending) :
      chart.Reads vertex (chart.passage vertex side ++ word) ending

theorem reads_nil (chart : Chart α) (vertex : Vertex) : chart.Reads vertex [] .interrupted :=
  .stop List.nil_prefix

end Chart

namespace RawEdge

def ways : RawEdge → List (Option Bool × Vertex)
  | jump none => []
  | jump (some target) => [(none, target)]
  | branch none onFalse => [(some false, onFalse)]
  | branch (some onTrue) onFalse => [(some true, onTrue), (some false, onFalse)]

def targets (edge : RawEdge) : List Vertex :=
  edge.ways.map (·.2)

theorem mem_targets {edge : RawEdge} :
    target ∈ edge.targets ↔ ∃ side, (side, target) ∈ edge.ways := by
  simp [targets]

end RawEdge

namespace RawGraph

def chart (graph : RawGraph α) : Chart α where
  elements
    | .block index => graph.blocks[index]?.elim [] (·.elements)
    | .exit => []
  ways
    | .block index => graph.blocks[index]?.elim [] (·.edge.ways)
    | .exit => []

/-- Every target and the start is the exit or a block of the graph. -/
def InRange (graph : RawGraph α) : Prop :=
  (∀ block ∈ graph.blocks, ∀ target ∈ block.edge.targets, target.Within graph.blocks.length) ∧
    graph.start.Within graph.blocks.length

instance (graph : RawGraph α) : Decidable graph.InRange :=
  inferInstanceAs (Decidable (_ ∧ _))

end RawGraph

namespace Edge

def ways : Edge → List (Option Bool × Vertex)
  | always target => [(none, target)]
  | branch onTrue onFalse => [(some true, onTrue), (some false, onFalse)]

end Edge

namespace Graph

def chart (graph : Graph α) : Chart α where
  elements
    | .block index => graph.blocks[index]?.elim [] (·.elements)
    | .exit => []
  ways
    | .block index => graph.blocks[index]?.elim [] (·.edge.ways)
    | .exit => []

end Graph

end FlowLint
