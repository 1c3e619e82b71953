namespace FlowLint

inductive Rule
  | unreachableCode
  | neverLoops
  | tooComplex
deriving DecidableEq, Repr, Inhabited

namespace Rule

def all : List Rule :=
  [unreachableCode, neverLoops, tooComplex]

def name : Rule → String
  | unreachableCode => "unreachable-code"
  | neverLoops => "never-loops"
  | tooComplex => "too-complex"

def code : Rule → String
  | unreachableCode => "JS001"
  | neverLoops => "JS002"
  | tooComplex => "JS003"

def rank : Rule → Nat
  | unreachableCode => 0
  | neverLoops => 1
  | tooComplex => 2

def ofName? (name : String) : Option Rule :=
  all.find? (·.name == name)

theorem mem_all (rule : Rule) : rule ∈ all := by
  cases rule <;> decide

theorem ofName?_name (rule : Rule) : ofName? rule.name = some rule := by
  cases rule <;> decide

end Rule

end FlowLint
