import FlowLint.Flow.Builder

namespace FlowLint

namespace Scope

def pushLoop (labels : List String) (continueTarget breakTarget : Vertex) (scope : Scope) : Scope :=
  scope.push ⟨.loop, labels, some continueTarget, breakTarget⟩

def pushSwitch (labels : List String) (breakTarget : Vertex) (scope : Scope) : Scope :=
  scope.push ⟨.switch, labels, none, breakTarget⟩

def pushLabeled (labels : List String) (breakTarget : Vertex) (scope : Scope) : Scope :=
  scope.push ⟨.labeled, labels, none, breakTarget⟩

end Scope

/-- Adds the block of an update that leads back to the guard of a loop, and gives the vertex where
the loop goes on after its body. -/
def Draft.addUpdate (guard : Vertex) (update : Option Element) (draft : Draft) : Draft × Vertex :=
  match update with
  | none => (draft, guard)
  | some update => ((draft.enter guard).prepend update, (draft.enter guard).here)

/-- Adds the tests of clauses, each leading to its clause or to the next test, and gives the vertex
of the first one. Behind the last test is `other`. -/
def Clause.addTests (other : Vertex) : (pos : Nat) → List (Clause × Vertex) → Draft → Draft × Vertex
  | _, [], draft => (draft, other)
  | pos, (⟨_, none, body⟩, _) :: clauses, draft =>
    addTests other (pos + Stmt.sizes body) clauses draft
  | pos, (⟨_, some test, body⟩, entry) :: clauses, draft =>
    let (draft, next) := addTests other (pos + test.size + Stmt.sizes body) clauses draft
    let draft := draft.enterBlock (.branch (some entry) next)
    (draft.prepend ⟨pos, .expression test⟩, draft.here)

namespace Stmt

/-- Adds what follows a failed test, and gives the vertex where it begins. -/
def buildElse (scope : Scope) (pos : Nat) (orElse : Option Stmt) (draft : Draft) :
    Except FlowError (Draft × Vertex) :=
  match orElse with
  | none => return (draft, draft.here)
  | some orElse => do
    let draft ← orElse.build scope [] pos (draft.enter draft.here)
    return (draft, draft.here)

/-- Adds a loop without entering it: its guard, its update and its body. -/
def buildLoop (scope : Scope) (labels : List String) (edge : RawEdge) (head : Element)
    (update : Option Element) (pos : Nat) (body : Stmt) (draft : Draft) :
    Except FlowError Draft := do
  let updated := (draft.addGuard edge head).addUpdate draft.next update
  let scope := scope.pushLoop labels updated.2 draft.here
  let built ← body.build scope [] pos (updated.1.enter updated.2)
  return built.wire draft.blocks.length

def optionBuild (scope : Scope) (pos : Nat) (stmt : Option Stmt) (draft : Draft) :
    Except FlowError Draft :=
  match stmt with
  | none => return draft
  | some stmt => stmt.build scope [] pos draft

end Stmt

/-- The part of a `try` that takes over, its `catch` or its `finally`; `position` is that of the
first statement. -/
structure Rescue where
  parameter : Option Element
  position : Nat
  stmts : List Stmt

def Handler.rescue (pos : Nat) (handler : Handler) : Rescue :=
  ⟨handler.parameter.map fun parameter => ⟨pos, .expression parameter⟩,
    pos + Expr.optionSize handler.parameter, handler.body.body⟩

def Block.rescue (pos : Nat) (block : Block) : Rescue :=
  ⟨none, pos, block.body⟩

theorem Handler.forall_rescue {motive : Stmt → Prop} {handler : Option Handler}
    (h : ∀ clause ∈ handler, ∀ stmt ∈ Block.body (Handler.body clause), motive stmt) (pos : Nat) :
    ∀ part ∈ handler.map (·.rescue pos), ∀ stmt ∈ Rescue.stmts part, motive stmt := by
  intro part hp
  obtain ⟨clause, hc, rfl⟩ := Option.map_eq_some_iff.1 hp
  exact h clause hc

theorem Block.forall_rescue {motive : Stmt → Prop} {finalizer : Option Block}
    (h : ∀ final ∈ finalizer, ∀ stmt ∈ Block.body final, motive stmt) (pos : Nat) :
    ∀ part ∈ finalizer.map (·.rescue pos), ∀ stmt ∈ Rescue.stmts part, motive stmt := by
  intro part hp
  obtain ⟨final, hf, rfl⟩ := Option.map_eq_some_iff.1 hp
  exact h final hf

/-- Adds a part that takes over. Given where a normal and an abrupt end lead behind it, gives where
they lead in front of it. -/
def Rescue.build (scope : Scope) (exits : Vertex × Vertex) (rescue : Option Rescue)
    (draft : Draft) : Except FlowError (Draft × Vertex × Vertex) :=
  match rescue with
  | none => return (draft, exits)
  | some rescue => do
    let scope := scope.throwingTo exits.2
    let draft ← Stmt.builds scope rescue.position rescue.stmts (draft.enter exits.1)
    let draft := rescue.parameter.elim draft draft.prepend
    return (draft, draft.here, draft.here)

theorem Draft.enterBlock_prepend (draft : Draft) (edge : RawEdge) (element : Element) :
    (draft.enterBlock edge).prepend element =
      ⟨draft.blocks ++ [⟨[element], edge⟩], draft.blocks.length⟩ := by
  simp [prepend, enterBlock, RawBlock.prepend, RawBlock.ofEdge, List.modify_eq_take_drop]

namespace Plan

variable {α β : Type} (scope : Scope) (draft : Draft)

@[simp] theorem run_pure (a : α) : (pure a : Plan α).run scope draft = pure (draft, a) :=
  rfl

@[simp] theorem run_bind (plan : Plan α) (next : α → Plan β) :
    (plan >>= next).run scope draft =
      plan.run scope draft >>= fun built => (next built.2).run scope built.1 :=
  rfl

@[simp] theorem run_map (f : α → β) (plan : Plan α) :
    (f <$> plan).run scope draft =
      plan.run scope draft >>= fun built => pure (built.1, f built.2) :=
  rfl

@[simp] theorem run_see (read : Scope → Draft → α) :
    (see read).run scope draft = pure (draft, read scope draft) :=
  rfl

@[simp] theorem run_attempt (result : Except FlowError α) :
    (attempt result).run scope draft = result >>= fun a => pure (draft, a) :=
  rfl

@[simp] theorem run_here : here.run scope draft = pure (draft, draft.here) :=
  rfl

@[simp] theorem run_withBreakable (breakable : Breakable) (plan : Plan α) :
    (withBreakable breakable plan).run scope draft = plan.run (scope.push breakable) draft :=
  rfl

@[simp] theorem run_withThrowTarget (target : Vertex) (plan : Plan α) :
    (withThrowTarget target plan).run scope draft = plan.run (scope.throwingTo target) draft :=
  rfl

@[simp] theorem run_unit (plan : Plan Unit) :
    plan.run scope draft = plan.build scope draft >>= fun built => pure (built, ()) := by
  rw [build]
  cases plan.run scope draft <;> rfl

@[simp] theorem build_pure : (pure () : Plan Unit).build scope draft = pure draft :=
  rfl

@[simp] theorem build_bind (plan : Plan α) (next : α → Plan Unit) :
    (plan >>= next).build scope draft =
      plan.run scope draft >>= fun built => (next built.2).build scope built.1 := by
  simp only [build, run_bind, bind_assoc]

@[simp] theorem build_change (step : Draft.Step) :
    (change step).build scope draft = pure (step.apply draft) :=
  rfl

@[simp] theorem build_enter (target : Vertex) :
    (enter target).build scope draft = pure (draft.enter target) :=
  rfl

@[simp] theorem build_prepend (element : Element) :
    (prepend element).build scope draft = pure (draft.prepend element) :=
  rfl

@[simp] theorem build_visiting (plan : Plan Unit) :
    (visiting plan).build scope draft = plan.build scope draft :=
  rfl

@[simp] theorem build_plan (stmt : Stmt) (labels : List String) (pos : Nat) :
    (stmt.plan labels pos).build scope draft = stmt.build scope labels pos draft :=
  rfl

@[simp] theorem build_plans (stmts : List Stmt) (pos : Nat) :
    (Stmt.plans pos stmts).build scope draft = Stmt.builds scope pos stmts draft :=
  rfl

@[simp] theorem run_plans (clauses : List Clause) (after : Vertex) (pos : Nat) :
    (Clause.plans after pos clauses).run scope draft =
      Clause.builds scope after pos clauses draft :=
  rfl

@[simp] theorem run_subFlow (successor : Vertex) (plan : Plan Unit) :
    (subFlow successor plan).run scope draft =
      plan.build scope (draft.enter successor) >>= fun built => pure (built, built.here) := by
  simp [subFlow]

@[simp] theorem run_addUpdate (guard : Vertex) (update : Option Element) :
    (addUpdate guard update).run scope draft = pure (draft.addUpdate guard update) := by
  cases update <;> rfl

@[simp] theorem run_loop (labels : List String) (edge : Vertex → RawEdge) (head : Element)
    (update : Option Element) (body : Stmt) (pos : Nat) :
    (loop labels edge head update (visiting (body.plan [] pos))).run scope draft = (do
      let built ← body.buildLoop scope labels (edge draft.here) head update pos draft
      return (built, draft.next, built.here)) := by
  simp [loop, Stmt.buildLoop]
  rfl

@[simp] theorem run_handling (throwTarget next : Vertex) (parameter : Option Element)
    (pos : Nat) (stmts : List Stmt) :
    (handling throwTarget next parameter (Stmt.plans pos stmts)).run scope draft = (do
      let built ← Stmt.builds (scope.throwingTo throwTarget) pos stmts (draft.enter next)
      let built := parameter.elim built built.prepend
      return (built, built.here)) := by
  cases parameter <;> simp [handling]

/-- The tests of clauses are added beside the current block, which makes no difference behind
them. -/
@[simp] theorem run_tests (other : Vertex) (pos : Nat) (clauses : List (Clause × Vertex)) :
    (tests other pos clauses).run scope draft =
      let tested := Clause.addTests other pos clauses draft
      pure (⟨tested.1.blocks, draft.current⟩, tested.2) := by
  induction clauses generalizing pos with
  | nil => rfl
  | cons clause clauses ih =>
    obtain ⟨⟨range, _ | test, body⟩, entry⟩ := clause
    · exact ih _
    · simp only [tests, run_bind, ih, pure_bind, Clause.addTests, Draft.enterBlock_prepend]
      rfl

end Plan

@[simp] theorem Scope.throwingTo_throwTarget (scope : Scope) :
    scope.throwingTo scope.throwTarget = scope :=
  rfl

namespace Stmt

attribute [local simp] plan plans

variable (scope : Scope) (labels : List String) (pos : Nat) (draft : Draft) (range : Range)

theorem build_returnStmt (value : Option Expr) :
    (returnStmt range value).build scope labels pos draft =
      .ok ((draft.enter .exit).prepend ⟨pos, .statement (returnStmt range value)⟩) := by
  rfl

theorem build_throwStmt (value : Expr) :
    (throwStmt range value).build scope labels pos draft =
      .ok ((draft.enter scope.throwTarget).prepend
        ⟨pos, .statement (throwStmt range value)⟩) := by
  rfl

theorem build_jump (kind : JumpKind) (label : Option Identifier) :
    (jump range kind label).build scope labels pos draft = (do
      let target ← scope.jumpTarget kind label range
      return (draft.enter target).prepend ⟨pos, .statement (jump range kind label)⟩) := by
  rw [build]
  simp

theorem build_block (body : List Stmt) :
    (block range body).build scope labels pos draft = builds scope (pos + 1) body draft := by
  rfl

theorem build_labeled (label : Identifier) (body : Stmt) :
    (labeled range label body).build scope labels pos draft =
      if body.takesLabels then body.build scope (labels ++ [label.name]) (pos + 1) draft
      else
        body.build (scope.pushLabeled (labels ++ [label.name]) draft.here) [] (pos + 1)
          (draft.enter draft.here) := by
  rw [build]
  cases h : body.takesLabels <;> simp [h, Scope.pushLabeled]

theorem build_ifStmt (test : Expr) (body : Stmt) (orElse : Option Stmt) :
    (ifStmt range test body orElse).build scope labels pos draft = (do
      let bodyPos := pos + 1 + test.size
      let (built, onFalse) ← buildElse scope (bodyPos + body.size) orElse draft
      let built ← body.build scope [] bodyPos (built.enter draft.here)
      return (built.enterBlock (.branch (some built.here) onFalse)).prepend
        ⟨pos + 1, .expression test⟩) := by
  rw [build]
  cases orElse <;> simp [buildElse, Draft.Step.apply]

theorem build_whileStmt (test : Expr) (body : Stmt) :
    (whileStmt range test body).build scope labels pos draft = (do
      let built ← body.buildLoop scope labels (.branch none draft.here) ⟨pos + 1, .expression test⟩
        none (pos + 1 + test.size) draft
      return built.enter draft.next) := by
  rw [build]
  simp

theorem build_doStmt (body : Stmt) (test : Expr) :
    (doStmt range body test).build scope labels pos draft = (do
      let built ← body.buildLoop scope labels (.branch none draft.here)
        ⟨pos + 1 + body.size, .expression test⟩ none (pos + 1) draft
      return built.enter built.here) := by
  rw [build]
  simp

theorem build_forStmt (init : Option Stmt) (test update : Option Expr) (body : Stmt) :
    (forStmt range init test update body).build scope labels pos draft = (do
      let testPos := pos + 1 + optionSize init
      let bodyPos := testPos + Expr.optionSize test
      let built ← body.buildLoop scope labels (forEdge draft.here test)
        (forHead pos testPos (forStmt range init test update body) test)
        (update.map fun update => ⟨bodyPos + body.size, .expression update⟩) bodyPos draft
      optionBuild scope (pos + 1) init (built.enter draft.next)) := by
  cases init <;>
    · rw [build]
      simp [optionBuild]

theorem build_forEach (kind : EachKind) (left : Stmt) (right : Expr) (body : Stmt) :
    (forEach range kind left right body).build scope labels pos draft = (do
      let leftPos := pos + 1 + right.size
      let built ← body.buildLoop scope labels (.branch none draft.here) ⟨leftPos, .statement left⟩
        none (leftPos + left.size) draft
      return (built.enter draft.next).prepend ⟨pos + 1, .expression right⟩) := by
  rw [build]
  simp

theorem build_tryStmt (block : Block) (handler : Option Handler) (finalizer : Option Block) :
    (tryStmt range block handler finalizer).build scope labels pos draft = (do
      let handlerPos := pos + 1 + sizes block.body
      let finalPos := handlerPos + Handler.optionSize handler
      let exits := (draft.here, scope.throwTarget)
      let (draft, exits) ← Rescue.build scope exits (finalizer.map (·.rescue finalPos)) draft
      let (draft, exits) ← Rescue.build scope exits (handler.map (·.rescue handlerPos)) draft
      let built ← builds (scope.throwingTo exits.2) (pos + 1) block.body (draft.enter exits.1)
      return built.enter built.here) := by
  obtain ⟨_, body⟩ := block
  rw [build]
  rcases handler with _ | ⟨_, parameter, ⟨_, caught⟩⟩ <;>
    rcases finalizer with _ | ⟨_, final⟩ <;>
    simp [Rescue.build, Handler.rescue, Block.rescue]

theorem build_switchStmt (discriminant : Expr) (clauses : List Clause) :
    (switchStmt range discriminant clauses).build scope labels pos draft = (do
      let clausePos := pos + 1 + discriminant.size
      let inner := scope.pushSwitch labels draft.here
      let (built, entries) ← Clause.builds inner draft.here clausePos clauses draft
      let other := (Clause.defaultEntry? clauses entries).getD draft.here
      let (built, first) := Clause.addTests other clausePos (clauses.zip entries) built
      return (built.enter first).prepend ⟨pos + 1, .expression discriminant⟩) := by
  rw [build]
  simp [Scope.pushSwitch]
  rfl

theorem builds_nil : builds scope pos [] draft = .ok draft :=
  rfl

theorem builds_cons (stmt : Stmt) (stmts : List Stmt) :
    builds scope pos (stmt :: stmts) draft = (do
      let built ← builds scope (pos + stmt.size) stmts draft
      stmt.build scope [] pos built) := by
  rw [builds]
  simp

end Stmt

theorem Clause.builds_nil (scope : Scope) (after : Vertex) (pos : Nat) (draft : Draft) :
    builds scope after pos [] draft = .ok (draft, []) :=
  rfl

theorem Clause.builds_cons (scope : Scope) (after : Vertex) (pos : Nat) (range : Range)
    (test : Option Expr) (body : List Stmt) (clauses : List Clause) (draft : Draft) :
    builds scope after pos (⟨range, test, body⟩ :: clauses) draft = (do
      let bodyPos := pos + Expr.optionSize test
      let (built, entries) ← builds scope after (bodyPos + Stmt.sizes body) clauses draft
      let built ← Stmt.builds scope bodyPos body (built.enter (entries.headD after))
      return (built, built.here :: entries)) := by
  rw [builds, plans]
  simp

end FlowLint
