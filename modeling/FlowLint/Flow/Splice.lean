import FlowLint.Flow.Error
import FlowLint.Flow.Raw

namespace FlowLint

namespace RawBlock

variable {α : Type}

/-- Why an empty block with the given number cannot be taken out: only a jump with a target can. -/
def defect? (index : Nat) (block : RawBlock α) : Option GraphError :=
  if block.isEmpty then
    match block.edge with
    | .jump (some _) => none
    | .jump none => some (.unwiredGuard index)
    | .branch .. => some (.emptyBranch index)
  else
    none

end RawBlock

namespace RawEdge

/-- Replaces the targets that are there, the true side before the false side. -/
def mapTargets (f : Vertex → Except GraphError Vertex) : RawEdge → Except GraphError RawEdge
  | .jump none => return .jump none
  | .jump (some target) => return .jump (some (← f target))
  | .branch none onFalse => return .branch none (← f onFalse)
  | .branch (some onTrue) onFalse => return .branch (some (← f onTrue)) (← f onFalse)

end RawEdge

namespace RawGraph

variable {α : Type}

/-- Where an empty block leads. -/
def bypass? (graph : RawGraph α) (index : Nat) : Option Vertex :=
  match graph.blocks[index]? with
  | some ⟨[], .jump target⟩ => target
  | _ => none

/-- The end of the chain of empty blocks from a vertex, given the blocks that the chain has not
passed yet. A block that it would pass again lies on a cycle. -/
def skipEmpty (graph : RawGraph α) (fresh : List Nat) : Vertex → Except GraphError Vertex
  | .exit => .ok .exit
  | .block index =>
    match graph.bypass? index with
    | none => .ok (.block index)
    | some target =>
      if index ∈ fresh then graph.skipEmpty (fresh.erase index) target
      else .error (.emptyCycle index)
termination_by fresh.length
decreasing_by
  rename_i h
  have := List.length_pos_of_mem h
  rw [List.length_erase_of_mem h]
  omega

def rank (graph : RawGraph α) (index : Nat) : Nat :=
  (graph.blocks.take index).countP (!·.isEmpty)

def rank? (graph : RawGraph α) (index : Nat) : Option Nat :=
  if graph.blocks[index]?.any (!·.isEmpty) then some (graph.rank index) else none

/-- The vertex that takes the place of another in the graph without empty blocks. -/
def image (graph : RawGraph α) (vertex : Vertex) : Except GraphError Vertex := do
  match ← graph.skipEmpty (List.range graph.blocks.length) vertex with
  | .block index =>
    match graph.rank? index with
    | some rank => return .block rank
    | none => throw (.emptyBlock index)
  | .exit => return .exit

/-- The first empty block that cannot be taken out. -/
def defect? (graph : RawGraph α) : Option GraphError :=
  graph.blocks.zipIdx.findSome? fun (block, index) => block.defect? index

/-- The graph without its empty blocks; the others keep their order. -/
def splice (graph : RawGraph α) : Except GraphError (RawGraph α) := do
  match graph.defect? with
  | some error => throw error
  | none =>
    if graph.blocks.all (!·.isEmpty) then
      return graph
    else
      let blocks ← (graph.blocks.filter (!·.isEmpty)).mapM fun block => do
        let edge ← block.edge.mapTargets graph.image
        return { block with edge }
      let start ← graph.image graph.start
      return ⟨blocks, start⟩

end RawGraph

end FlowLint
