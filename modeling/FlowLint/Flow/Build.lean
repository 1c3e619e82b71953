import FlowLint.Flow.Builder
import FlowLint.Flow.Freeze
import FlowLint.Flow.Splice
import FlowLint.Tree.Body

namespace FlowLint

/-- Drafts, splices and freezes the graph of a body. -/
def Body.graph (options : FlowOptions) (body : Body) : Except FlowError (Graph Element) := do
  let raw ← RawGraph.ofBody options body.position body.stmts
  let spliced ← raw.splice.mapError .graph
  spliced.freeze.mapError .graph

end FlowLint
