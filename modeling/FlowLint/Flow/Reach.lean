import FlowLint.Flow.Graph

namespace FlowLint.Graph

variable {α : Type}

/-- The blocks found from the pending vertices, in the order they are found. Only blocks in `fresh`
are still to be found. -/
def explore (graph : Graph α) (fresh : List Nat) : List Vertex → List Nat
  | [] => []
  | .exit :: pending => graph.explore fresh pending
  | .block index :: pending =>
    if index ∈ fresh then
      index :: graph.explore (fresh.erase index) (graph.successors (.block index) ++ pending)
    else
      graph.explore fresh pending
termination_by pending => (fresh.length, pending.length)
decreasing_by
  · exact Prod.Lex.right _ (by simp)
  · rename_i h
    refine Prod.Lex.left _ _ ?_
    have := List.length_pos_of_mem h
    rw [List.length_erase_of_mem h]
    omega
  · exact Prod.Lex.right _ (by simp)

/-- The blocks that a path of any length leads to from a vertex. -/
def reachable (graph : Graph α) (source : Vertex) : List Nat :=
  graph.explore (List.range graph.size) [source]

end FlowLint.Graph
