import FlowLint.Flow.Build
import FlowLint.Lint.Complexity
import FlowLint.Lint.NeverLoops
import FlowLint.Lint.Settings
import FlowLint.Lint.UnreachableCode

namespace FlowLint

def Rule.check (settings : Settings) (body : Body) (graph : Graph Element) :
    Rule → List Diagnostic
  | unreachableCode => checkUnreachableCode graph
  | neverLoops => checkNeverLoops graph body
  | tooComplex => checkTooComplex settings.maxComplexity graph body

/-- What the selected rules report about a body; nothing if the body has no graph. -/
def Body.lint (settings : Settings) (body : Body) : List Diagnostic :=
  match body.graph settings.flow with
  | .ok graph => (Rule.all.filter settings.enabled).flatMap (Rule.check settings body graph)
  | .error _ => []

/-- What the selected rules report about all bodies of a script, in source order. -/
def Script.lint (settings : Settings) (script : Script) : List Diagnostic :=
  (script.bodies.flatMap (Body.lint settings)).mergeSort Diagnostic.le

end FlowLint
