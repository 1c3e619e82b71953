import FlowLint.Tree.Walk

namespace FlowLint

inductive Owner
  | script
  | declaration (name : Identifier)
  | expression (name : Option Identifier)
deriving DecidableEq, Repr

def Owner.name? : Owner → Option String
  | script => none
  | declaration name => some name.name
  | expression name => name.map (·.name)

/-- Statements that are run together; `range` stands for the body as a whole, and `position` is
that of its first statement. -/
structure Body where
  owner : Owner
  range : Range
  position : Nat
  stmts : List Stmt

namespace Body

def ofScript (script : Script) : Body :=
  ⟨.script, script.range, 0, script.body⟩

/-- The body of a function. A declared one is known by its name, and one in an expression by the
whole expression. -/
def ofElement? : Element → Option Body
  | ⟨position, .statement (.function _ name _ body)⟩ =>
    some ⟨.declaration name, name.range, position + 1, body⟩
  | ⟨position, .expression (.function range name _ body)⟩ =>
    some ⟨.expression name, range, position + 1, body⟩
  | _ => none

end Body

/-- The body of the script, then those of its functions, outer before inner. -/
def Script.bodies (script : Script) : List Body :=
  Body.ofScript script :: (Event.elements script.walk).filterMap Body.ofElement?

end FlowLint
