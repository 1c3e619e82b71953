import FlowLint.Flow.Vertex
import FlowLint.Source.Range

namespace FlowLint

/-- The way out of a block. -/
inductive Edge
  | always (target : Vertex)
  /-- A choice by the last element of the block. -/
  | branch (onTrue onFalse : Vertex)
deriving DecidableEq, Repr, Inhabited

namespace Edge

def targets : Edge → List Vertex
  | always target => [target]
  | branch onTrue onFalse => [onTrue, onFalse]

def isBranch : Edge → Bool
  | always _ => false
  | branch .. => true

/-- The distinct targets in ascending order. -/
def successors : Edge → List Vertex
  | always target => [target]
  | branch onTrue onFalse =>
    if onTrue = onFalse then [onTrue]
    else if onTrue.le onFalse then [onTrue, onFalse]
    else [onFalse, onTrue]

/-- The target of the true side, or the only one. -/
def entry : Edge → Vertex
  | always target => target
  | branch onTrue _ => onTrue

theorem mem_successors {edge : Edge} {vertex : Vertex} :
    vertex ∈ edge.successors ↔ vertex ∈ edge.targets := by
  cases edge with
  | always => rfl
  | branch onTrue onFalse =>
    simp only [successors, targets]
    split
    · simp_all
    · split
      · rfl
      · simp only [List.mem_cons, List.not_mem_nil, or_false]
        exact or_comm

end Edge

structure BasicBlock (α : Type) where
  elements : List α
  edge : Edge
deriving DecidableEq, Repr, Inhabited

namespace BasicBlock

variable {α : Type}

/-- The element that decides which side a branch takes. -/
def condition? (block : BasicBlock α) : Option α :=
  if block.edge.isBranch then block.elements.getLast? else none

/-- From the start of the first element to the end of the last. -/
def range [Ranged α] (block : BasicBlock α) : Range :=
  match block.elements.head?, block.elements.getLast? with
  | some first, some last => ⟨(Ranged.range first).start, (Ranged.range last).stop⟩
  | _, _ => ⟨0, 0⟩

end BasicBlock

/-- Blocks in the order of their first elements in the source, and the vertex where runs begin. -/
structure Graph (α : Type) where
  blocks : List (BasicBlock α)
  start : Vertex
deriving DecidableEq, Repr, Inhabited

/-- For each block and for the exit, the blocks that are known to lead there. -/
structure Predecessors where
  blocks : List (List Nat)
  exit : List Nat

namespace Predecessors

def empty (size : Nat) : Predecessors :=
  ⟨List.replicate size [], []⟩

/-- Enters a block for one of its targets. -/
def push (index : Nat) (lists : Predecessors) : Vertex → Predecessors
  | .block target => { lists with blocks := lists.blocks.modify target (· ++ [index]) }
  | .exit => { lists with exit := lists.exit ++ [index] }

def of (lists : Predecessors) : Vertex → List Nat
  | .block target => lists.blocks.getD target []
  | .exit => lists.exit

end Predecessors

namespace Graph

variable {α : Type}

def size (graph : Graph α) : Nat :=
  graph.blocks.length

/-- The distinct targets of a vertex in ascending order; the exit has none. -/
def successors (graph : Graph α) : Vertex → List Vertex
  | .exit => []
  | .block index => graph.blocks[index]?.elim [] (·.edge.successors)

def follow (graph : Graph α) (lists : Predecessors) (index : Nat) : Predecessors :=
  (graph.successors (.block index)).foldl (Predecessors.push index) lists

/-- The lists of predecessors, filled along the edges of one block after the other. -/
def predecessorLists (graph : Graph α) : Predecessors :=
  (List.range graph.size).foldl graph.follow (.empty graph.size)

def predecessors (graph : Graph α) (vertex : Vertex) : List Nat :=
  graph.predecessorLists.of vertex

end Graph

end FlowLint
