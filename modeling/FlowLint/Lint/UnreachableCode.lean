import FlowLint.Flow.Reach
import FlowLint.Lint.Diagnostic

namespace FlowLint

namespace Graph

variable {α : Type}

/-- The candidates that are not covered when their turn comes. One that is reported covers what can
be reached from it. -/
def uncovered (graph : Graph α) (covered : List Nat) : List Nat → List Nat
  | [] => []
  | head :: heads =>
    if head ∈ covered then graph.uncovered covered heads
    else head :: graph.uncovered (covered ++ graph.reachable (.block head)) heads

/-- The blocks where regions of unreachable code begin. A region is entered through a block without
predecessors, unless it is a cycle. -/
def deadHeads (graph : Graph α) : List Nat :=
  let blocks := List.range graph.size
  let entries := blocks.filter fun index => (graph.predecessors (.block index)).isEmpty
  graph.uncovered (graph.reachable graph.start) (entries ++ blocks)

end Graph

def Rule.checkUnreachableCode {α : Type} [Ranged α] (graph : Graph α) : List Diagnostic :=
  graph.deadHeads.map fun head =>
    ⟨.unreachableCode, "Unreachable code", graph.blocks[head]?.elim ⟨0, 0⟩ (·.range)⟩

end FlowLint
