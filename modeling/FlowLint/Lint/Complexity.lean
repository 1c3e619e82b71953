import FlowLint.Flow.Graph
import FlowLint.Lint.Diagnostic
import FlowLint.Tree.Body

namespace FlowLint

namespace Graph

variable {α : Type}

def edgeCount (graph : Graph α) : Nat :=
  (graph.blocks.flatMap (·.edge.successors)).length

/-- The number of linearly independent paths: `E - N + 2` for `E` edges between `N` vertices, the
exit counted. -/
def complexity (graph : Graph α) : Nat :=
  graph.edgeCount + 2 - (graph.size + 1)

end Graph

/-- How a diagnostic calls what a body belongs to. -/
def Owner.describe (owner : Owner) : String :=
  match owner, owner.name? with
  | .script, _ => "Script"
  | _, some name => s!"`{name}`"
  | _, none => "Function"

def Rule.checkTooComplex {α : Type} (limit : Nat) (graph : Graph α) (body : Body) :
    List Diagnostic :=
  let complexity := graph.complexity
  if complexity ≤ limit then []
  else
    [⟨.tooComplex, s!"{body.owner.describe} is too complex ({complexity} > {limit})", body.range⟩]

end FlowLint
