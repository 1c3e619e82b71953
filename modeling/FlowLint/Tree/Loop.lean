import FlowLint.Tree.Body

namespace FlowLint

/-- The element in front of each run of a loop's body, given the position of the loop: its test,
its left side, or the loop itself when it has no test. -/
def Stmt.guard? (pos : Nat) : Stmt → Option Element
  | .whileStmt _ test _ => some ⟨pos + 1, .expression test⟩
  | .doStmt _ body test => some ⟨pos + 1 + body.size, .expression test⟩
  | .forStmt _ init (some test) _ _ => some ⟨pos + 1 + Stmt.optionSize init, .expression test⟩
  | .forStmt range init none update body =>
    some ⟨pos, .statement (.forStmt range init none update body)⟩
  | .forEach _ _ left right _ => some ⟨pos + 1 + right.size, .statement left⟩
  | _ => none

/-- The place of a loop and the element in front of its body. -/
structure Loop where
  range : Range
  guard : Element

def Loop.ofElement? : Element → Option Loop
  | ⟨position, .statement stmt⟩ => (stmt.guard? position).map fun guard => ⟨stmt.range, guard⟩
  | _ => none

def Body.loops (body : Body) : List Loop :=
  (Event.elements (Stmt.walks .shallow body.position body.stmts)).filterMap Loop.ofElement?

end FlowLint
