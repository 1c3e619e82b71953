import FlowLint.Proofs.Flow.Parts

namespace FlowLint
set_option autoImplicit true

/-- A draft, and what surrounds the statement that is added to it, the innermost first. -/
structure Builder where
  options : FlowOptions
  draft : Draft
  breakables : List Breakable
  throwTargets : List Vertex

inductive Builder.Step
  /-- A statement is visited next, or has just been; nothing changes. -/
  | visit
  | change (step : Draft.Step)
  | pushBreakable (breakable : Breakable)
  | popBreakable
  | pushThrowTarget (target : Vertex)
  | popThrowTarget

namespace Builder

def initial (options : FlowOptions) : Builder :=
  ⟨options, .initial, [], []⟩

def throwTarget (builder : Builder) : Vertex :=
  builder.throwTargets.headD .exit

abbrev withDraft (builder : Builder) (draft : Draft) : Builder :=
  { builder with draft := draft }

/-- What surrounds the statement at hand, as far as jumps and `throw` can tell. -/
def scope (builder : Builder) : Scope :=
  ⟨builder.options, builder.breakables, builder.throwTarget⟩

def Step.apply : Step → Builder → Builder
  | visit, builder => builder
  | change step, builder => builder.withDraft (step.apply builder.draft)
  | pushBreakable breakable, builder =>
    { builder with breakables := breakable :: builder.breakables }
  | popBreakable, builder => { builder with breakables := builder.breakables.tail }
  | pushThrowTarget target, builder =>
    { builder with throwTargets := target :: builder.throwTargets }
  | popThrowTarget, builder => { builder with throwTargets := builder.throwTargets.tail }

def run (builder : Builder) (steps : List Step) : Builder :=
  steps.foldl (fun builder step => step.apply builder) builder

theorem run_append (builder : Builder) (steps steps' : List Step) :
    builder.run (steps ++ steps') = (builder.run steps).run steps' :=
  List.foldl_append

end Builder

namespace Surrounding

def first : Surrounding → Builder.Step
  | statement => .visit
  | breakable around => .pushBreakable around
  | throwTarget target => .pushThrowTarget target

def last : Surrounding → Builder.Step
  | statement => .visit
  | breakable _ => .popBreakable
  | throwTarget _ => .popThrowTarget

theorem scope_first (surrounding : Surrounding) (builder : Builder) :
    (surrounding.first.apply builder).scope = builder.scope.inside surrounding := by
  cases surrounding <;> rfl

theorem draft_first (surrounding : Surrounding) (builder : Builder) :
    (surrounding.first.apply builder).draft = builder.draft := by
  cases surrounding <;> rfl

theorem last_first (surrounding : Surrounding) (builder : Builder) (draft : Draft) :
    surrounding.last.apply ((surrounding.first.apply builder).withDraft draft) =
      builder.withDraft draft := by
  cases surrounding <;> rfl

end Surrounding

namespace Plan

/-- The steps that carry out a plan, and how they end. What is put around a part of the plan is taken
back behind that part, also if it fails. -/
def walk : {α : Type} → Plan α → Builder → List Builder.Step × Except FlowError α
  | _, give a, _ => ([], .ok a)
  | _, andThen plan next, builder =>
    match plan.walk builder with
    | (steps, .error error) => (steps, .error error)
    | (steps, .ok a) =>
      let (steps', result) := (next a).walk (builder.run steps)
      (steps ++ steps', result)
  | _, see read, builder => ([], .ok (read builder.scope builder.draft))
  | _, attempt result, _ => ([], result)
  | _, change step, _ => ([.change step], .ok ())
  | _, inside surrounding plan, builder =>
    let (steps, result) := plan.walk (surrounding.first.apply builder)
    (surrounding.first :: steps ++ [surrounding.last], result)

variable {α β : Type} {builder : Builder} {plan : Plan α} {steps : List Builder.Step}

theorem walk_bind_of_error (next : α → Plan β) (h : plan.walk builder = (steps, .error error)) :
    (plan >>= next).walk builder = (steps, .error error) := by
  change (andThen plan next).walk builder = _
  rw [walk, h]

theorem walk_bind_of_ok (next : α → Plan β) (h : plan.walk builder = (steps, .ok a)) :
    (plan >>= next).walk builder =
      (steps ++ ((next a).walk (builder.run steps)).1, ((next a).walk (builder.run steps)).2) := by
  change (andThen plan next).walk builder = _
  rw [walk, h]

theorem run_walk_inside (surrounding : Surrounding) (plan : Plan α) (builder : Builder) :
    builder.run ((inside surrounding plan).walk builder).1 =
      surrounding.last.apply ((surrounding.first.apply builder).run
        (plan.walk (surrounding.first.apply builder)).1) := by
  rw [walk, Builder.run_append]
  rfl

/-- A walk leaves what surrounds the statement at hand as it has found it. -/
theorem run_walk (plan : Plan α) (builder : Builder) :
    builder.run (plan.walk builder).1 =
      builder.withDraft (builder.run (plan.walk builder).1).draft := by
  induction plan generalizing builder with
  | give | see | attempt | change => rfl
  | andThen plan next ih ihNext =>
    have hrestored := ih builder
    rcases hwalk : plan.walk builder with ⟨steps, error | a⟩
    · rw [hwalk] at hrestored
      rw [walk, hwalk]
      exact hrestored
    · rw [hwalk] at hrestored
      rw [walk, hwalk]
      simp only [Builder.run_append]
      rw [ihNext a (builder.run steps), hrestored]
  | inside surrounding plan ih =>
    rw [run_walk_inside, ih, surrounding.last_first]

/-- A walk ends as its plan does, with the draft that the plan leaves. -/
theorem run_eq_walk (plan : Plan α) (builder : Builder) :
    plan.run builder.scope builder.draft = (plan.walk builder).2.map fun a =>
      ((builder.run (plan.walk builder).1).draft, a) := by
  induction plan generalizing builder with
  | give | see | change => rfl
  | attempt result => cases result <;> rfl
  | andThen plan next ih ihNext =>
    have hrestored := plan.run_walk builder
    rw [run, ih]
    rcases hwalk : plan.walk builder with ⟨steps, error | a⟩
    · rw [walk, hwalk]
      rfl
    · rw [hwalk] at hrestored
      rw [walk, hwalk]
      simp only [Builder.run_append]
      exact hrestored ▸ ihNext a (builder.run steps)
  | inside surrounding plan ih =>
    rw [run, ← surrounding.scope_first, ← surrounding.draft_first builder, ih, run_walk_inside,
      run_walk, surrounding.last_first]
    rfl

end Plan

def Stmt.visit (pos : Nat) (stmt : Stmt) (builder : Builder) :
    List Builder.Step × Except FlowError Unit :=
  (Plan.visiting (stmt.plan [] pos)).walk builder

/-- The steps of the walk through a body, and how it ends. -/
def Walk.ofBody (options : FlowOptions) (pos : Nat) (stmts : List Stmt) :
    List Builder.Step × Except FlowError Unit :=
  (Stmt.plans pos stmts).walk (.initial options)

/-- The graph of a body is the draft that the walk through the body ends with. -/
theorem Walk.ofBody_builds (options : FlowOptions) (pos : Nat) (stmts : List Stmt) :
    RawGraph.ofBody options pos stmts = (Walk.ofBody options pos stmts).2.map fun _ =>
      ((Builder.initial options).run (Walk.ofBody options pos stmts).1).draft.toRawGraph := by
  have hrun := (Stmt.plans pos stmts).run_eq_walk (.initial options)
  have hbuilds : Stmt.builds (Scope.outermost options) pos stmts Draft.initial =
      (Stmt.plans pos stmts).run (Builder.initial options).scope (Builder.initial options).draft >>=
        fun built => .ok built.1 :=
    rfl
  rw [RawGraph.ofBody, hbuilds, hrun, ofBody]
  cases ((Stmt.plans pos stmts).walk (Builder.initial options)).2 <;> rfl

end FlowLint
