import FlowLint.Proofs.Flow.Demand
import FlowLint.Proofs.Flow.Drafting

namespace FlowLint
set_option autoImplicit true

namespace Draft

/-- Whether a step points a guard at its body. -/
def Step.wires (guard : Nat) : Step → Bool
  | wire other => other = guard
  | _ => false

def run (draft : Draft) (steps : List Step) : Draft :=
  steps.foldl (fun draft step => step.apply draft) draft

/-- Whether a guard is there and lacks its body. -/
def Waits (draft : Draft) (guard : Nat) : Prop :=
  ∃ block, draft.blocks[guard]? = some block ∧ ¬ block.edge.Wired

/-- A guard is added without its body, and a body is given only to a guard that waits. -/
def Step.Allowed (draft : Draft) : Step → Prop
  | addGuard edge _ => ¬ edge.Wired
  | wire guard => draft.Waits guard
  | _ => True

/-- Whether every step is allowed when its turn comes. -/
def Allows (draft : Draft) : List Step → Prop
  | [] => True
  | step :: steps => step.Allowed draft ∧ (step.apply draft).Allows steps

variable {draft later last : Draft} {steps steps' : List Step} {step : Step} {guard : Nat}

theorem run_append (draft : Draft) (steps steps' : List Step) :
    draft.run (steps ++ steps') = (draft.run steps).run steps' :=
  List.foldl_append

theorem allows_append :
    draft.Allows (steps ++ steps') ↔ draft.Allows steps ∧ (draft.run steps).Allows steps' := by
  induction steps generalizing draft with
  | nil => simp [Allows, run]
  | cons step steps ih => simp only [List.cons_append, Allows, ih, and_assoc, run, List.foldl_cons]

theorem Allows.at_split (h : draft.Allows steps) (hs : steps = before ++ step :: behind) :
    step.Allowed (draft.run before) ∧ (step.apply (draft.run before)).Allows behind := by
  subst hs
  exact (allows_append.1 h).2

/-- Only wiring a block changes where it leads. -/
theorem Step.edge_apply (hw : step.wires guard = false) {block : RawBlock Element}
    (hb : draft.blocks[guard]? = some block) :
    ∃ block', (step.apply draft).blocks[guard]? = some block' ∧ block'.edge = block.edge := by
  have hlt := (List.getElem?_eq_some_iff.1 hb).1
  cases step with
  | prepend element =>
    by_cases hc : guard = draft.current
    · subst hc
      exact ⟨block.prepend element, by simp [Step.apply, Draft.prepend, hb], rfl⟩
    · exact ⟨block, by rw [Step.apply, getElem?_prepend_of_ne _ hc, hb], rfl⟩
  | enterBlock edge => exact ⟨block, by rw [Step.apply, getElem?_enterBlock_of_lt _ hlt, hb], rfl⟩
  | addGuard edge head => exact ⟨block, by rw [Step.apply, getElem?_addGuard_of_lt _ _ hlt, hb], rfl⟩
  | addTest onTrue onFalse test =>
    exact ⟨block, by rw [Step.apply, getElem?_addTest_of_lt _ _ _ hlt, hb], rfl⟩
  | wire other =>
    have hne : guard ≠ other := by
      rintro rfl
      simp [wires] at hw
    exact ⟨block, by rw [Step.apply, getElem?_wire_of_ne hne, hb], rfl⟩

/-- The blocks of a draft still lead where they did. -/
def KeepsEdges (draft later : Draft) : Prop :=
  ∀ (index : Nat) (block : RawBlock Element), draft.blocks[index]? = some block →
    ∃ block', later.blocks[index]? = some block' ∧ block'.edge = block.edge

theorem KeepsEdges.refl (draft : Draft) : draft.KeepsEdges draft :=
  fun _ block hb => ⟨block, hb, rfl⟩

theorem KeepsEdges.trans (h : draft.KeepsEdges later) (h' : later.KeepsEdges last) :
    draft.KeepsEdges last := by
  intro index block hb
  obtain ⟨block', hb', he⟩ := h index block hb
  obtain ⟨block'', hb'', he'⟩ := h' index block' hb'
  exact ⟨block'', hb'', he'.trans he⟩

theorem Step.keepsEdges (hw : ∀ guard, step.wires guard = false) (draft : Draft) :
    draft.KeepsEdges (step.apply draft) :=
  fun guard _ hb => step.edge_apply (hw guard) hb

/-- Wiring a new guard changes no edge that was there before it. -/
theorem KeepsEdges.wire (h : draft.KeepsEdges later) :
    draft.KeepsEdges (later.wire draft.blocks.length) := by
  intro index block hb
  have hlt := (List.getElem?_eq_some_iff.1 hb).1
  obtain ⟨block', hb', he⟩ := h index block hb
  refine ⟨block', ?_, he⟩
  rw [getElem?_wire_of_ne (Nat.ne_of_lt hlt), hb']

end Draft

namespace Builder

variable {builder : Builder} {steps : List Step}

def Step.change? : Step → Option Draft.Step
  | change step => some step
  | _ => none

theorem draft_run (builder : Builder) (steps : List Step) :
    (builder.run steps).draft = builder.draft.run (steps.filterMap Step.change?) := by
  induction steps generalizing builder with
  | nil => rfl
  | cons step steps ih => cases step <;> exact ih _

/-- Every change of the draft is allowed. -/
def wiring : Demand where
  step builder step := ∀ change ∈ step.change?, change.Allowed builder.draft
  failed _ := True

theorem Meets.allows (h : builder.Meets wiring steps) :
    builder.draft.Allows (steps.filterMap Step.change?) := by
  induction steps generalizing builder with
  | nil => trivial
  | cons step steps ih =>
    obtain ⟨hstep, hsteps⟩ := h
    cases step with
    | change step => exact ⟨hstep step rfl, ih hsteps⟩
    | visit | pushBreakable | popBreakable | pushThrowTarget | popThrowTarget =>
      exact (ih hsteps :)

end Builder

namespace Plan

/-- A plan makes allowed changes only, and the blocks that are there before it is carried out lead
where they did. -/
def Proceeds (plan : Plan α) : Prop :=
  ∀ builder : Builder,
    plan.Holds Builder.wiring builder fun _ draft => builder.draft.KeepsEdges draft

variable {α β : Type} {plan : Plan α} {next : α → Plan β} {body : Plan Unit} {step : Draft.Step}

theorem Proceeds.pure (a : α) : (Pure.pure a : Plan α).Proceeds :=
  fun _ => .pure (.refl _)

theorem Proceeds.see (read : Scope → Draft → α) : (Plan.see read).Proceeds :=
  fun _ => .see (.refl _)

theorem Proceeds.attempt (result : Except FlowError α) : (Plan.attempt result).Proceeds :=
  fun _ => ⟨trivial, fun _ _ => .refl _, fun _ _ => trivial⟩

theorem Proceeds.change (ha : ∀ draft, step.Allowed draft)
    (hw : ∀ guard, step.wires guard = false) : (Plan.change step).Proceeds := by
  refine fun builder => .change ?_ (Draft.Step.keepsEdges hw _)
  rintro _ ⟨⟩
  exact ha _

theorem Proceeds.bind (h : plan.Proceeds) (hn : ∀ a, (next a).Proceeds) :
    (plan >>= next).Proceeds :=
  fun builder => (h builder).bind fun a _ _ hm => (hn a _).mono fun _ _ => hm.trans

theorem Proceeds.inside (h : plan.Proceeds) (surrounding : Surrounding) :
    (Plan.inside surrounding plan).Proceeds := by
  have hf : ∀ builder, Builder.wiring.step builder surrounding.first := by
    cases surrounding <;> exact fun _ => nofun
  have hl : ∀ builder, Builder.wiring.step builder surrounding.last := by
    cases surrounding <;> exact fun _ => nofun
  refine fun builder => .inside (hf _) (fun later _ => ⟨hl later, trivial⟩) ?_
  exact (h _).mono fun _ _ hp => ⟨surrounding.draft_first builder ▸ hp, hl _⟩

theorem Proceeds.enter (target : Vertex) : (Plan.enter target).Proceeds :=
  .change (fun _ => trivial) fun _ => rfl

theorem Proceeds.prepend (element : Element) : (Plan.prepend element).Proceeds :=
  .change (fun _ => trivial) fun _ => rfl

theorem Proceeds.subFlow (h : body.Proceeds) (successor : Vertex) :
    (Plan.subFlow successor body).Proceeds :=
  (enter successor).bind fun _ => h.bind fun _ => see _

theorem Proceeds.addUpdate (guard : Vertex) (update : Option Element) :
    (Plan.addUpdate guard update).Proceeds := by
  cases update with
  | none => exact pure _
  | some update => exact (enter guard).bind fun _ => (prepend update).bind fun _ => see _

theorem Proceeds.handling (h : body.Proceeds) (throwTarget next : Vertex)
    (parameter : Option Element) :
    (Plan.handling throwTarget next parameter body).Proceeds := by
  refine ((h.subFlow next).inside _).bind fun _ => ?_
  cases parameter with
  | none => exact see _
  | some parameter => exact (prepend parameter).bind fun _ => see _

theorem Proceeds.tests (other : Vertex) (pos : Nat) (clauses : List (Clause × Vertex)) :
    (Plan.tests other pos clauses).Proceeds := by
  induction clauses generalizing pos with
  | nil => exact pure _
  | cons clause clauses ih =>
    obtain ⟨⟨range, _ | test, body⟩, entry⟩ := clause
    · exact ih _
    · refine (ih _).bind fun next => (see _).bind fun _ => ?_
      exact bind (.change (fun _ => trivial) fun _ => rfl) fun _ => pure _

/-- The guard still waits when its body has been added, so it may be pointed at that body. -/
theorem Proceeds.loop (h : body.Proceeds) {edge : Vertex → RawEdge}
    (hw : ∀ after, ¬ (edge after).Wired) (labels : List String) (head : Element)
    (update : Option Element) : (Plan.loop labels edge head update body).Proceeds := by
  intro builder
  refine .see_bind (.see_bind (.change_bind ?_ ?_))
  · rintro _ ⟨⟩
    exact hw _
  refine (addUpdate _ update _).bind fun again draft _ hupdated => ?_
  refine ((h.subFlow again).inside _ _).bind fun entry draft' _ hbuilt => ?_
  have hkept := hupdated.trans hbuilt
  have hguard : (builder.draft.addGuard (edge builder.draft.here) head).blocks[
      builder.draft.blocks.length]? = some ⟨[head], edge builder.draft.here⟩ := by
    simp [Draft.addGuard]
  obtain ⟨block, hb, he⟩ := hkept _ _ hguard
  refine .change_bind ?_ (.pure ?_)
  · rintro _ ⟨⟩
    exact ⟨block, hb, he ▸ hw _⟩
  · have hadd : builder.draft.KeepsEdges (builder.draft.addGuard (edge builder.draft.here) head) :=
      (Draft.Step.addGuard ..).keepsEdges (fun _ => rfl) _
    exact (hadd.trans hkept).wire

end Plan

open Plan

/-- Adding a statement takes allowed steps only. -/
def Stmt.Proceeds (stmt : Stmt) : Prop :=
  ∀ (labels : List String) (pos : Nat), (stmt.plan labels pos).Proceeds

theorem Stmt.plans_proceed {stmts : List Stmt} (h : ∀ stmt ∈ stmts, Stmt.Proceeds stmt)
    (pos : Nat) : (Stmt.plans pos stmts).Proceeds := by
  induction stmts generalizing pos with
  | nil => exact .pure ()
  | cons stmt stmts ih =>
    have hrest := ih (fun stmt hm => h stmt (List.mem_cons_of_mem _ hm)) (pos + stmt.size)
    exact hrest.bind fun _ => (h stmt (List.mem_cons_self ..) [] pos).inside _

theorem Clause.plans_proceed {clauses : List Clause}
    (h : ∀ clause ∈ clauses, ∀ stmt ∈ Clause.body clause, Stmt.Proceeds stmt)
    (after : Vertex) (pos : Nat) : (Clause.plans after pos clauses).Proceeds := by
  induction clauses generalizing pos with
  | nil => exact .pure []
  | cons clause clauses ih =>
    obtain ⟨range, test, body⟩ := clause
    have hrest := ih (fun clause hm => h clause (List.mem_cons_of_mem _ hm))
    have hbody := Stmt.plans_proceed (h _ (List.mem_cons_self ..))
    exact (hrest _).bind fun _ => ((hbody _).subFlow _).bind fun _ => .pure _

theorem Stmt.proceeds (stmt : Stmt) : stmt.Proceeds := by
  induction stmt using Stmt.induction with
  | expression | declaration | function | debugger =>
    intro labels pos
    rw [Stmt.plan]
    exact .prepend _
  | empty =>
    intro labels pos
    rw [Stmt.plan]
    exact .pure ()
  | withStmt =>
    intro labels pos
    rw [Stmt.plan]
    exact .attempt _
  | returnStmt =>
    intro labels pos
    rw [Stmt.plan]
    exact (Proceeds.enter _).bind fun _ => .prepend _
  | throwStmt =>
    intro labels pos
    rw [Stmt.plan]
    exact (Proceeds.see _).bind fun _ => (Proceeds.enter _).bind fun _ => .prepend _
  | jump range kind label =>
    intro labels pos
    rw [Stmt.plan]
    exact (Proceeds.see _).bind fun _ => (Proceeds.attempt _).bind fun _ =>
      (Proceeds.enter _).bind fun _ => .prepend _
  | ifStmt range test body orElse ihBody ihElse =>
    intro labels pos
    rw [Stmt.plan]
    refine (Proceeds.see _).bind fun after => Proceeds.bind ?_ fun _ => ?_
    · cases orElse with
      | none => exact .pure _
      | some orElse => exact ((ihElse orElse rfl [] _).inside _).subFlow after
    · exact (((ihBody [] _).inside _).subFlow after).bind fun _ =>
        .bind (.change (fun _ => trivial) fun _ => rfl) fun _ => .prepend _
  | whileStmt range test body ih | doStmt range body test ih =>
    intro labels pos
    rw [Stmt.plan]
    exact (((ih [] _).inside _).loop (fun _ => RawEdge.Waits.branch.not_wired) _ _ _).bind fun _ =>
      .enter _
  | forStmt range init test update body ihInit ih =>
    intro labels pos
    have hwaits := fun after => (Stmt.waits_forEdge after test).not_wired
    cases init with
    | none =>
      rw [Stmt.plan]
      exact (((ih [] _).inside _).loop hwaits _ _ _).bind fun _ =>
        (Proceeds.enter _).bind fun _ => .pure ()
    | some init =>
      rw [Stmt.plan]
      exact (((ih [] _).inside _).loop hwaits _ _ _).bind fun _ =>
        (Proceeds.enter _).bind fun _ => (ihInit init rfl [] _).inside _
  | forEach range kind left right body ih =>
    intro labels pos
    rw [Stmt.plan]
    exact (((ih [] _).inside _).loop (fun _ => RawEdge.Waits.branch.not_wired) _ _ _).bind fun _ =>
      (Proceeds.enter _).bind fun _ => .prepend _
  | tryStmt range block handler finalizer ihBlock ihHandler ihFinalizer =>
    intro labels pos
    obtain ⟨_, body⟩ := block
    rw [Stmt.plan]
    refine (Proceeds.see _).bind fun _ => (Proceeds.see _).bind fun _ =>
      Proceeds.bind ?_ fun _ => Proceeds.bind ?_ fun _ => ?_
    · rcases finalizer with _ | ⟨_, final⟩
      · exact .pure _
      · exact ((Stmt.plans_proceed (ihFinalizer _ rfl) _).subFlow _).bind fun _ => .pure _
    · rcases handler with _ | ⟨_, parameter, ⟨_, caught⟩⟩
      · exact .pure _
      · exact ((Stmt.plans_proceed (ihHandler _ rfl) _).handling _ _ _).bind fun _ => .pure _
    · exact (((Stmt.plans_proceed ihBlock _).subFlow _).inside _).bind fun _ => .enter _
  | switchStmt range discriminant clauses ih =>
    intro labels pos
    rw [Stmt.plan]
    exact (Proceeds.see _).bind fun _ => ((Clause.plans_proceed ih _ _).inside _).bind fun _ =>
      (Proceeds.tests _ _ _).bind fun _ => (Proceeds.enter _).bind fun _ => .prepend _
  | block range body ih =>
    intro labels pos
    rw [Stmt.plan]
    exact Stmt.plans_proceed ih _
  | labeled range label body ih =>
    intro labels pos
    rw [Stmt.plan]
    split
    · exact ih _ _
    · exact (Proceeds.see _).bind fun _ => ((((ih [] _).inside _).subFlow _).inside _).bind fun _ =>
        .pure ()

end FlowLint
