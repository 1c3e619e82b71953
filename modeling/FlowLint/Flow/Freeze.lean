import FlowLint.Flow.Error
import FlowLint.Flow.Graph
import FlowLint.Flow.Raw

namespace FlowLint

namespace RawGraph

variable {α : Type} [Ranged α]

/-- The place of a numbered block in source order: the start of its first element, then its
number. -/
def key (block : RawBlock α × Nat) : Nat × Nat :=
  (block.1.start?.getD 0, block.2)

def precedes (left right : RawBlock α × Nat) : Bool :=
  (key left).1 < (key right).1 || ((key left).1 == (key right).1 && (key left).2 ≤ (key right).2)

def sourceOrder (graph : RawGraph α) : List (RawBlock α × Nat) :=
  graph.blocks.zipIdx.mergeSort precedes

def renumber (order : List (RawBlock α × Nat)) : Vertex → Vertex
  | .block index => .block ((order.map (·.2)).idxOf index)
  | .exit => .exit

/-- The edge with its targets renumbered; `index` is the number of the block it leaves. -/
def freezeEdge (renumber : Vertex → Vertex) (index : Nat) : RawEdge → Except GraphError Edge
  | .jump (some target) => .ok (.always (renumber target))
  | .branch (some onTrue) onFalse => .ok (.branch (renumber onTrue) (renumber onFalse))
  | .jump none | .branch none _ => .error (.unwiredGuard index)

def freeze (graph : RawGraph α) : Except GraphError (Graph α) := do
  match graph.blocks.findIdx? (·.isEmpty) with
  | some index => throw (.emptyBlock index)
  | none =>
    let order := graph.sourceOrder
    let blocks ← order.mapM fun (block, index) => do
      let edge ← freezeEdge (renumber order) index block.edge
      return ⟨block.elements, edge⟩
    return ⟨blocks, renumber order graph.start⟩

end RawGraph

end FlowLint
