import FlowLint.Flow.Error
import FlowLint.Flow.Vertex

namespace FlowLint

/-- What becomes of a jump to a label that no statement around it carries. -/
inductive UnresolvedLabel
  /-- The body has no graph. -/
  | error
  /-- The jump goes where it would go without a label. -/
  | innermost
deriving DecidableEq, Repr, Inhabited

structure FlowOptions where
  unresolvedLabel : UnresolvedLabel := .error
deriving DecidableEq, Repr, Inhabited

inductive BreakableKind
  | loop
  | switch
  /-- Any other labeled statement; only a labeled `break` leaves it. -/
  | labeled
deriving DecidableEq, Repr

/-- A statement around that jumps can leave. -/
structure Breakable where
  kind : BreakableKind
  labels : List String
  continueTarget : Option Vertex
  breakTarget : Vertex
deriving DecidableEq, Repr

structure Scope where
  options : FlowOptions
  /-- The statements around, the innermost first. -/
  breakables : List Breakable
  throwTarget : Vertex
deriving DecidableEq, Repr

namespace Breakable

def stops (kind : JumpKind) (breakable : Breakable) : Bool :=
  match kind with
  | .break => breakable.kind != .labeled
  | .continue => breakable.kind == .loop

/-- Where a jump to this statement goes; only loops can be continued. -/
def target (breakable : Breakable) (kind : JumpKind) (label : String) (range : Range) :
    Except FlowError Vertex :=
  match kind, breakable.continueTarget with
  | .break, _ => .ok breakable.breakTarget
  | .continue, some target => .ok target
  | .continue, none => .error (.continueToNonLoop label range)

end Breakable

namespace Scope

def outermost (options : FlowOptions) : Scope :=
  ⟨options, [], .exit⟩

def push (breakable : Breakable) (scope : Scope) : Scope :=
  { scope with breakables := breakable :: scope.breakables }

def throwingTo (target : Vertex) (scope : Scope) : Scope :=
  { scope with throwTarget := target }

/-- The innermost statement around that an unlabeled jump stops at. -/
def innermost? (scope : Scope) (kind : JumpKind) : Option Breakable :=
  scope.breakables.find? (·.stops kind)

/-- The innermost statement around that carries a label. -/
def labeled? (scope : Scope) (label : String) : Option Breakable :=
  scope.breakables.find? (·.labels.contains label)

/-- The statement around that a jump refers to, if there is one. -/
def breakable? (scope : Scope) (kind : JumpKind) (range : Range) :
    Option String → Except FlowError (Option Breakable)
  | none => .ok (scope.innermost? kind)
  | some label =>
    match scope.labeled? label, scope.options.unresolvedLabel with
    | some breakable, _ => .ok (some breakable)
    | none, .innermost => .ok (scope.innermost? kind)
    | none, .error => .error (.unresolvedLabel kind label range)

def jumpTarget (scope : Scope) (kind : JumpKind) (label : Option Identifier) (range : Range) :
    Except FlowError Vertex := do
  match ← scope.breakable? kind range (label.map (·.name)) with
  | some breakable => breakable.target kind (label.elim "" (·.name)) range
  | none => .error (.unresolvedJump kind range)

end Scope

end FlowLint
