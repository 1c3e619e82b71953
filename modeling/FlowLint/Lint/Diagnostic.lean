import FlowLint.Lint.Rule
import FlowLint.Source.Range

namespace FlowLint

structure Diagnostic where
  rule : Rule
  message : String
  range : Range
deriving DecidableEq, Repr

namespace Diagnostic

def describe (diagnostic : Diagnostic) : String :=
  s!"{diagnostic.range.start}..{diagnostic.range.stop}: {diagnostic.rule.code} {diagnostic.message}"

/-- By the start of the range, then by rule. -/
def le (left right : Diagnostic) : Bool :=
  left.range.start < right.range.start ||
    (left.range.start == right.range.start && left.rule.rank ≤ right.rule.rank)

end Diagnostic

end FlowLint
