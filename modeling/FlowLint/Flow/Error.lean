import FlowLint.Tree.Basic

namespace FlowLint

/-- A defect of a graph under construction; `index` is the number of a block at fault. -/
inductive GraphError
  | emptyBlock (index : Nat)
  | unwiredGuard (index : Nat)
  | emptyBranch (index : Nat)
  | emptyCycle (index : Nat)
deriving DecidableEq, Repr

def GraphError.message : GraphError → String
  | emptyBlock index => s!"cannot build block {index} without any element"
  | unwiredGuard index => s!"loop guard {index} was never connected to its body"
  | emptyBranch index => s!"block {index} branches but has no condition"
  | emptyCycle index => s!"block {index} is part of a cycle without any element"

/-- What is wrong with a body that has no graph. -/
inductive FlowError
  | unsupported (kind : String) (range : Range)
  | unresolvedJump (kind : JumpKind) (range : Range)
  | unresolvedLabel (kind : JumpKind) (label : String) (range : Range)
  | continueToNonLoop (label : String) (range : Range)
  | graph (error : GraphError)
deriving DecidableEq, Repr

def FlowError.message : FlowError → String
  | unsupported kind range => s!"unsupported `{kind}` statement at byte offset {range.start}"
  | unresolvedJump kind range =>
    s!"`{kind.text}` at byte offset {range.start} has no enclosing target"
  | unresolvedLabel kind label range =>
    s!"`{kind.text} {label}` at byte offset {range.start} refers to an unknown label"
  | continueToNonLoop label range =>
    s!"`continue {label}` at byte offset {range.start} does not refer to a loop"
  | graph error => error.message

end FlowLint
