import FlowLint.Flow.Reach
import FlowLint.Lint.Diagnostic
import FlowLint.Tree.Loop

namespace FlowLint

/-- The block that ends in the element in front of a loop's body. -/
def Graph.guardBlock? (graph : Graph Element) (loop : Loop) : Option Nat :=
  graph.blocks.findIdx? fun block =>
    block.elements.getLast?.any (·.position == loop.guard.position)

/-- Whether a loop has a guard that cannot be reached again from the loop's body. -/
def Graph.neverLoops (graph : Graph Element) (loop : Loop) : Bool :=
  match graph.guardBlock? loop with
  | none => false
  | some guard =>
    graph.blocks[guard]?.any fun block => guard ∉ graph.reachable block.edge.entry

def Rule.checkNeverLoops (graph : Graph Element) (body : Body) : List Diagnostic :=
  (body.loops.filter graph.neverLoops).map fun loop =>
    ⟨.neverLoops, "This loop executes at most once", loop.range⟩

end FlowLint
