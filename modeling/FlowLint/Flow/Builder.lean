import FlowLint.Flow.Plan

namespace FlowLint

/-- Loops, `switch` statements and further labels take over the labels in front of them. -/
def Stmt.takesLabels : Stmt → Bool
  | .whileStmt .. | .doStmt .. | .forStmt .. | .forEach .. | .switchStmt .. | .labeled .. => true
  | _ => false

/-- The entry of the first default clause, given the entries of all clauses. -/
def Clause.defaultEntry? (clauses : List Clause) (entries : List Vertex) : Option Vertex :=
  (clauses.zip entries).findSome? fun
    | (⟨_, none, _⟩, entry) => some entry
    | _ => none

namespace Stmt

/-- Whether the guard of a `for` leaves the loop. -/
def forEdge (after : Vertex) : Option Expr → RawEdge
  | none => .jump none
  | some _ => .branch none after

/-- What the guard of a `for` evaluates; the whole statement stands for a missing test. -/
def forHead (pos testPos : Nat) (stmt : Stmt) : Option Expr → Element
  | none => ⟨pos, .statement stmt⟩
  | some test => ⟨testPos, .expression test⟩

end Stmt

open Plan

mutual

/-- How to add a statement whose position is `pos`, with the labels in front of it. -/
def Stmt.plan (labels : List String) (pos : Nat) (stmt : Stmt) : Plan Unit :=
  match stmt with
  | .expression _ value => prepend ⟨pos + 1, .expression value⟩
  | .declaration .. | .function .. | .debugger _ => prepend ⟨pos, .statement stmt⟩
  | .empty _ => return
  | .block _ body => Stmt.plans (pos + 1) body
  | .ifStmt _ test body orElse => do
    let after ← here
    let bodyPos := pos + 1 + test.size
    let onFalse ← (match orElse with
      | some orElse => subFlow after (visiting (orElse.plan [] (bodyPos + body.size)))
      | none => return after)
    let onTrue ← subFlow after (visiting (body.plan [] bodyPos))
    change (.enterBlock (.branch (some onTrue) onFalse))
    prepend ⟨pos + 1, .expression test⟩
  | .whileStmt _ test body => do
    let (guard, _) ← loop labels (.branch none) ⟨pos + 1, .expression test⟩ none
      (visiting (body.plan [] (pos + 1 + test.size)))
    enter guard
  | .doStmt _ body test => do
    let (_, entry) ← loop labels (.branch none) ⟨pos + 1 + body.size, .expression test⟩ none
      (visiting (body.plan [] (pos + 1)))
    enter entry
  | .forStmt _ init test update body => do
    let testPos := pos + 1 + Stmt.optionSize init
    let bodyPos := testPos + Expr.optionSize test
    let (guard, _) ← loop labels (Stmt.forEdge · test) (Stmt.forHead pos testPos stmt test)
      (update.map fun update => ⟨bodyPos + body.size, .expression update⟩)
      (visiting (body.plan [] bodyPos))
    enter guard
    match init with
    | some init => visiting (init.plan [] (pos + 1))
    | none => return
  | .forEach _ _ left right body => do
    let leftPos := pos + 1 + right.size
    let (guard, _) ← loop labels (.branch none) ⟨leftPos, .statement left⟩ none
      (visiting (body.plan [] (leftPos + left.size)))
    enter guard
    prepend ⟨pos + 1, .expression right⟩
  | .jump range kind label => do
    let scope ← see fun scope _ => scope
    let target ← attempt (scope.jumpTarget kind label range)
    enter target
    prepend ⟨pos, .statement stmt⟩
  | .returnStmt .. => do
    enter .exit
    prepend ⟨pos, .statement stmt⟩
  | .throwStmt .. => do
    let target ← see fun scope _ => scope.throwTarget
    enter target
    prepend ⟨pos, .statement stmt⟩
  | .tryStmt _ ⟨_, body⟩ handler finalizer => do
    let after ← here
    let outer ← see fun scope _ => scope.throwTarget
    let handlerPos := pos + 1 + Stmt.sizes body
    let finallyEntry ← (match finalizer with
      | some ⟨_, final⟩ =>
        some <$> subFlow after (Stmt.plans (handlerPos + Handler.optionSize handler) final)
      | none => return none)
    let catchEntry ← (match handler with
      | some ⟨_, parameter, ⟨_, caught⟩⟩ =>
        some <$> handling (finallyEntry.getD outer) (finallyEntry.getD after)
          (parameter.map fun parameter => ⟨handlerPos, .expression parameter⟩)
          (Stmt.plans (handlerPos + Expr.optionSize parameter) caught)
      | none => return none)
    let handlerEntry := catchEntry <|> finallyEntry
    let entry ← withThrowTarget (handlerEntry.getD outer)
      (subFlow (handlerEntry.getD after) (Stmt.plans (pos + 1) body))
    enter entry
  | .switchStmt _ discriminant clauses => do
    let after ← here
    let clausePos := pos + 1 + discriminant.size
    let entries ← withBreakable ⟨.switch, labels, none, after⟩
      (Clause.plans after clausePos clauses)
    let other := (Clause.defaultEntry? clauses entries).getD after
    let first ← tests other clausePos (clauses.zip entries)
    enter first
    prepend ⟨pos + 1, .expression discriminant⟩
  | .labeled _ label body =>
    let labels := labels ++ [label.name]
    if body.takesLabels then
      body.plan labels (pos + 1)
    else do
      let after ← here
      let _ ← withBreakable ⟨.labeled, labels, none, after⟩
        (subFlow after (visiting (body.plan [] (pos + 1))))
  | .withStmt range .. => attempt (.error (.unsupported stmt.kindName range))

/-- How to add statements, the last one first; the first one has the position `pos`. -/
def Stmt.plans (pos : Nat) : List Stmt → Plan Unit
  | [] => return
  | stmt :: stmts => do
    Stmt.plans (pos + stmt.size) stmts
    visiting (stmt.plan [] pos)

/-- How to add the bodies of clauses, each falling through to the next and the last to `after`;
gives their entries. -/
def Clause.plans (after : Vertex) (pos : Nat) : List Clause → Plan (List Vertex)
  | [] => return []
  | ⟨_, test, body⟩ :: clauses => do
    let bodyPos := pos + Expr.optionSize test
    let entries ← Clause.plans after (bodyPos + Stmt.sizes body) clauses
    let entry ← subFlow (entries.headD after) (Stmt.plans bodyPos body)
    return entry :: entries

end

def Stmt.build (scope : Scope) (labels : List String) (pos : Nat) (stmt : Stmt) (draft : Draft) :
    Except FlowError Draft :=
  (stmt.plan labels pos).build scope draft

def Stmt.builds (scope : Scope) (pos : Nat) (stmts : List Stmt) (draft : Draft) :
    Except FlowError Draft :=
  (Stmt.plans pos stmts).build scope draft

def Clause.builds (scope : Scope) (after : Vertex) (pos : Nat) (clauses : List Clause)
    (draft : Draft) : Except FlowError (Draft × List Vertex) :=
  (Clause.plans after pos clauses).run scope draft

/-- The graph of a body whose first statement has the position `pos`, before empty blocks are
taken out. -/
def RawGraph.ofBody (options : FlowOptions) (pos : Nat) (body : List Stmt) :
    Except FlowError (RawGraph Element) := do
  let draft ← Stmt.builds (Scope.outermost options) pos body Draft.initial
  return draft.toRawGraph

end FlowLint
