import FlowLint.Proofs.Flow.Behaviour
import FlowLint.Tree.Body

namespace FlowLint

/-- The label that a jump looks for among the labels around it. -/
def FlowOptions.labelOf (options : FlowOptions) (known : List String) (label : Option String) :
    Option String :=
  match options.unresolvedLabel with
  | .error => label
  | .innermost => label.filter known.contains

namespace FlowOptions

variable {options : FlowOptions} {known : List String} {label : String}

theorem labelOf_none : options.labelOf known none = none := by
  unfold labelOf
  split <;> rfl

theorem labelOf_known (h : known.contains label = true) :
    options.labelOf known (some label) = some label := by
  unfold labelOf
  split
  · rfl
  · exact Option.filter_some_pos h

theorem labelOf_unknown (ho : options.unresolvedLabel = .innermost)
    (h : known.contains label = false) : options.labelOf known (some label) = none := by
  simp only [labelOf, ho, Option.filter_some, h]
  rfl

end FlowOptions

namespace Enclosing

def known (around : List Enclosing) : List String :=
  around.flatMap (·.labels)

theorem contains_known (around : List Enclosing) (label : String) :
    (known around).contains label = (around.find? (·.labels.contains label)).isSome := by
  rw [Bool.eq_iff_iff]
  simp [known]

end Enclosing

open Behaviour

mutual

/-- What a statement whose position is `pos` does, with the labels in front of it, when the
statements around it carry the labels `known`. -/
def Stmt.runs (options : FlowOptions) (known labels : List String) (pos : Nat) (stmt : Stmt) :
    Behaviour Element :=
  match stmt with
  | .expression _ value => emit (.element ⟨pos + 1, .expression value⟩)
  | .declaration .. | .function .. | .debugger _ => emit (.element ⟨pos, .statement stmt⟩)
  | .empty _ => skip
  | .block _ body => Stmt.runsAll options known (pos + 1) body
  | .ifStmt _ condition body orElse =>
    let head := ⟨pos + 1, .expression condition⟩
    let bodyPos := pos + 1 + condition.size
    ((test head true).andThen (body.runs options known [] bodyPos)).either
      ((test head false).andThen
        (match orElse with
        | some orElse => orElse.runs options known [] (bodyPos + body.size)
        | none => skip))
  | .whileStmt _ condition body =>
    let loop := ⟨.loop, labels⟩
    let head := ⟨pos + 1, .expression condition⟩
    let body := body.runs options (labels ++ known) [] (pos + 1 + condition.size)
    (rounds loop (test head true) (test head false) body skip).through loop.leave
  | .doStmt _ body condition =>
    let loop := ⟨.loop, labels⟩
    let head := ⟨pos + 1 + body.size, .expression condition⟩
    let body := body.runs options (labels ++ known) [] (pos + 1)
    ((body.through loop.resume).andThen
      (rounds loop (test head true) (test head false) body skip)).through loop.leave
  | .forStmt _ init condition update body =>
    let loop := ⟨.loop, labels⟩
    let testPos := pos + 1 + Stmt.optionSize init
    let bodyPos := testPos + Expr.optionSize condition
    let enter := match condition with
      | some condition => test ⟨testPos, .expression condition⟩ true
      | none => emit (.element ⟨pos, .statement stmt⟩)
    let exit := match condition with
      | some condition => test ⟨testPos, .expression condition⟩ false
      | none => never
    let again := match update with
      | some update => emit (.element ⟨bodyPos + body.size, .expression update⟩)
      | none => skip
    let first := match init with
      | some init => init.runs options known [] (pos + 1)
      | none => skip
    let body := body.runs options (labels ++ known) [] bodyPos
    first.andThen ((rounds loop enter exit body again).through loop.leave)
  | .forEach _ _ left right body =>
    let loop := ⟨.loop, labels⟩
    let leftPos := pos + 1 + right.size
    let head := ⟨leftPos, .statement left⟩
    let body := body.runs options (labels ++ known) [] (leftPos + left.size)
    (emit (.element ⟨pos + 1, .expression right⟩)).andThen
      ((rounds loop (test head true) (test head false) body skip).through loop.leave)
  | .jump _ kind label =>
    (emit (.element ⟨pos, .statement stmt⟩)).andThen
      (ends (.jump kind (options.labelOf known (label.map (·.name)))))
  | .returnStmt .. => (emit (.element ⟨pos, .statement stmt⟩)).andThen (ends .returned)
  | .throwStmt .. => (emit (.element ⟨pos, .statement stmt⟩)).andThen (ends .thrown)
  | .tryStmt _ ⟨_, body⟩ handler finalizer =>
    let handlerPos := pos + 1 + Stmt.sizes body
    let finalPos := handlerPos + Handler.optionSize handler
    let body := Stmt.runsAll options known (pos + 1) body
    let caught := match handler with
      | some ⟨_, some parameter, ⟨_, caught⟩⟩ =>
        body.rescuedBy ((emit (.element ⟨handlerPos, .expression parameter⟩)).andThen
          (Stmt.runsAll options known (handlerPos + parameter.size) caught))
      | some ⟨_, none, ⟨_, caught⟩⟩ => body.rescuedBy (Stmt.runsAll options known handlerPos caught)
      | none => body
    match finalizer with
    | some ⟨_, final⟩ => caught.rescuedBy (Stmt.runsAll options known finalPos final)
    | none => caught
  | .switchStmt _ discriminant clauses =>
    let switch : Enclosing := ⟨.switch, labels⟩
    let clausePos := pos + 1 + discriminant.size
    let other := Clause.runsDefault options (labels ++ known) clausePos clauses
    (emit (.element ⟨pos + 1, .expression discriminant⟩)).andThen
      ((Clause.selects options (labels ++ known) other clausePos clauses).through switch.leave)
  | .labeled _ label body =>
    let labels := labels ++ [label.name]
    if body.takesLabels then
      body.runs options known labels (pos + 1)
    else
      let body := body.runs options (labels ++ known) [] (pos + 1)
      body.through (Enclosing.mk .labeled labels).leave
  | .withStmt .. => never

def Stmt.runsAll (options : FlowOptions) (known : List String) (pos : Nat) :
    List Stmt → Behaviour Element
  | [] => skip
  | stmt :: stmts =>
    (stmt.runs options known [] pos).andThen (Stmt.runsAll options known (pos + stmt.size) stmts)

/-- The bodies of clauses, each falling through to the next. -/
def Clause.runsFrom (options : FlowOptions) (known : List String) (pos : Nat) :
    List Clause → Behaviour Element
  | [] => skip
  | ⟨_, condition, body⟩ :: clauses =>
    let bodyPos := pos + Expr.optionSize condition
    (Stmt.runsAll options known bodyPos body).andThen
      (Clause.runsFrom options known (bodyPos + Stmt.sizes body) clauses)

/-- The bodies of clauses from the first default clause on. -/
def Clause.runsDefault (options : FlowOptions) (known : List String) (pos : Nat) :
    List Clause → Behaviour Element
  | [] => skip
  | ⟨_, none, body⟩ :: clauses =>
    (Stmt.runsAll options known pos body).andThen
      (Clause.runsFrom options known (pos + Stmt.sizes body) clauses)
  | ⟨_, some condition, body⟩ :: clauses =>
    Clause.runsDefault options known (pos + condition.size + Stmt.sizes body) clauses

/-- The tests of clauses in order, until one selects its clause; `other` if none does. -/
def Clause.selects (options : FlowOptions) (known : List String) (other : Behaviour Element)
    (pos : Nat) : List Clause → Behaviour Element
  | [] => other
  | ⟨_, none, body⟩ :: clauses =>
    Clause.selects options known other (pos + Stmt.sizes body) clauses
  | ⟨_, some condition, body⟩ :: clauses =>
    let head := ⟨pos, .expression condition⟩
    let bodyPos := pos + condition.size
    let behind := bodyPos + Stmt.sizes body
    ((test head true).andThen ((Stmt.runsAll options known bodyPos body).andThen
      (Clause.runsFrom options known behind clauses))).either
      ((test head false).andThen (Clause.selects options known other behind clauses))

end

def Rescue.runs (options : FlowOptions) (known : List String) (rescue : Rescue) :
    Behaviour Element :=
  match rescue.parameter with
  | none => Stmt.runsAll options known rescue.position rescue.stmts
  | some parameter =>
    (emit (.element parameter)).andThen (Stmt.runsAll options known rescue.position rescue.stmts)

/-- A behaviour with the part that takes over from it. -/
def Rescue.guarding (options : FlowOptions) (known : List String) (rescue : Option Rescue)
    (behaviour : Behaviour Element) : Behaviour Element :=
  rescue.elim behaviour fun rescue => behaviour.rescuedBy (rescue.runs options known)

section Equations

variable (options : FlowOptions) (known labels : List String) (pos : Nat) (range : Range)

theorem Stmt.runs_ifStmt (condition : Expr) (body : Stmt) (orElse : Option Stmt) :
    (ifStmt range condition body orElse).runs options known labels pos =
      ((test ⟨pos + 1, .expression condition⟩ true).andThen
        (body.runs options known [] (pos + 1 + condition.size))).either
      ((test ⟨pos + 1, .expression condition⟩ false).andThen
        (orElse.elim skip
          (·.runs options known [] (pos + 1 + condition.size + body.size)))) := by
  cases orElse <;> rfl

theorem Stmt.runs_forStmt (init : Option Stmt) (condition update : Option Expr) (body : Stmt) :
    (forStmt range init condition update body).runs options known labels pos =
      let testPos := pos + 1 + optionSize init
      let bodyPos := testPos + Expr.optionSize condition
      let stmt := forStmt range init condition update body
      (init.elim skip (·.runs options known [] (pos + 1))).andThen
        ((rounds ⟨.loop, labels⟩
          (condition.elim (emit (.element ⟨pos, .statement stmt⟩))
            (test ⟨testPos, .expression ·⟩ true))
          (condition.elim never (test ⟨testPos, .expression ·⟩ false))
          (body.runs options (labels ++ known) [] bodyPos)
          (update.elim skip (emit <| .element ⟨bodyPos + body.size, .expression ·⟩))).through
            (Enclosing.mk .loop labels).leave) := by
  cases init <;> cases condition <;> cases update <;> rfl

theorem Stmt.runs_tryStmt (block : Block) (handler : Option Handler)
    (finalizer : Option Block) :
    (tryStmt range block handler finalizer).runs options known labels pos =
      let handlerPos := pos + 1 + sizes block.body
      let finalPos := handlerPos + Handler.optionSize handler
      Rescue.guarding options known (finalizer.map (·.rescue finalPos))
        (Rescue.guarding options known (handler.map (·.rescue handlerPos))
          (runsAll options known (pos + 1) block.body)) := by
  obtain ⟨_, body⟩ := block
  rcases handler with _ | ⟨_, _ | parameter, ⟨_, caught⟩⟩ <;>
    rcases finalizer with _ | ⟨_, final⟩ <;> rfl

end Equations

def Body.runs (options : FlowOptions) (body : Body) : Behaviour Element :=
  Stmt.runsAll options [] body.position body.stmts

/-- How the reading of a run may end. Every run can be cut off where it ends. -/
inductive Outcome.Shows : Outcome → Ending → Prop
  | normal : Shows .normal .finished
  | returned : Shows .returned .finished
  | thrown : Shows .thrown .finished
  | cut {outcome : Outcome} : Shows outcome .interrupted

end FlowLint
