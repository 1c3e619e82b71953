import FlowLint.Flow.Scope
import FlowLint.Lint.Rule

namespace FlowLint

structure Settings where
  /-- The rules to run. -/
  select : List Rule := Rule.all
  /-- The largest complexity a body may have without a report. -/
  maxComplexity : Nat := 10
  flow : FlowOptions := default
deriving DecidableEq, Repr, Inhabited

namespace Settings

def forRule (rule : Rule) : Settings :=
  { select := [rule] }

def enabled (settings : Settings) (rule : Rule) : Bool :=
  settings.select.contains rule

end Settings

end FlowLint
