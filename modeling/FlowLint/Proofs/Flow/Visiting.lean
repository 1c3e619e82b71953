import FlowLint.Proofs.Flow.Sealed

namespace FlowLint
set_option autoImplicit true

namespace Plan

variable {α : Type} {builder : Builder} {plan : Plan α} {post : α → Draft → Prop} {draft : Draft}

theorem Holds.visiting_sealed (hs : builder.Sealed)
    (h : plan.Holds Builder.sealing builder fun a draft =>
      post a draft ∧ (builder.withDraft draft).Sealed) :
    (visiting plan).Holds Builder.sealing builder post :=
  .inside (fun _ => hs) (fun _ hl => ⟨fun _ => hl, hl⟩) (h.mono fun _ _ hp => ⟨hp.1, fun _ => hp.2⟩)

theorem Holds.withBreakable_sealed
    (h : plan.Holds Builder.sealing
      { builder with breakables := breakable :: builder.breakables } post) :
    (withBreakable breakable plan).Holds Builder.sealing builder post :=
  .inside nofun (fun _ hl => ⟨nofun, hl.apply _ rfl rfl⟩) (h.mono fun _ _ hp => ⟨hp, nofun⟩)

theorem Holds.withThrowTarget_sealed
    (h : plan.Holds Builder.sealing
      { builder with throwTargets := target :: builder.throwTargets } post) :
    (withThrowTarget target plan).Holds Builder.sealing builder post :=
  .inside nofun (fun _ hl => ⟨nofun, hl.apply _ rfl rfl⟩) (h.mono fun _ _ hp => ⟨hp, nofun⟩)

/-- The builder is in range with a draft, and the vertex is there. -/
def Reaches (builder : Builder) (vertex : Vertex) (draft : Draft) : Prop :=
  (builder.withDraft draft).InRange ∧ vertex.Within draft.blocks.length

/-- The builder is sealed with a draft, and the current block is `entry`. -/
def Enters (builder : Builder) (entry : Vertex) (draft : Draft) : Prop :=
  (builder.withDraft draft).Sealed ∧ entry = draft.here

theorem Enters.reaches (h : Enters builder entry draft) : Reaches builder entry draft :=
  ⟨h.1.toInRange, h.2 ▸ h.1.here⟩

theorem Reaches.sealed_enter (h : Reaches builder vertex draft) :
    (builder.withDraft (draft.enter vertex)).Sealed :=
  h.1.sealed_enter h.2

/-- A walk is sealed at every visit, if it is at the beginning, and is still sealed at the end. -/
def Seals (plan : Plan Unit) : Prop :=
  ∀ builder : Builder, builder.Sealed →
    plan.Holds Builder.sealing builder fun _ draft => (builder.withDraft draft).Sealed

theorem Seals.visiting {plan : Plan Unit} (h : plan.Seals) : (Plan.visiting plan).Seals :=
  fun builder hs => .visiting_sealed hs ((h builder hs).mono fun _ _ hp => ⟨hp, hp⟩)

theorem Seals.subFlow {plan : Plan Unit} (h : plan.Seals) (hr : builder.InRange)
    (ht : successor.Within builder.draft.blocks.length) :
    (Plan.subFlow successor plan).Holds Builder.sealing builder (Enters builder) := by
  refine Holds.change_bind Builder.sealing_change ?_
  exact (h _ (hr.sealed_enter ht)).bind fun _ draft _ hs => .see ⟨hs, rfl⟩

/-- A flow that jumps can leave is sealed at its end, when they cannot leave it any more. -/
theorem Seals.withBreakable {plan : Plan Unit} (h : plan.Seals) (hr : builder.InRange)
    (hb : ∀ target ∈ Breakable.targets breakable, target.Within builder.draft.blocks.length)
    (ht : successor.Within builder.draft.blocks.length) :
    (Plan.withBreakable breakable (Plan.subFlow successor plan)).Holds Builder.sealing builder
      (Enters builder) := by
  have hpush : ((Builder.Step.pushBreakable breakable).apply builder).InRange := hr.apply _ hb
  refine .withBreakable_sealed ((h.subFlow hpush ht).mono fun entry draft hp => ⟨?_, hp.2⟩)
  exact hp.1.apply .popBreakable rfl rfl

theorem Seals.withThrowTarget {plan : Plan Unit} (h : plan.Seals) (hr : builder.InRange)
    (hb : target.Within builder.draft.blocks.length)
    (ht : successor.Within builder.draft.blocks.length) :
    (Plan.withThrowTarget target (Plan.subFlow successor plan)).Holds Builder.sealing builder
      (Enters builder) := by
  have hpush : ((Builder.Step.pushThrowTarget target).apply builder).InRange :=
    hr.apply _ (List.forall_mem_singleton.2 hb)
  refine .withThrowTarget_sealed ((h.subFlow hpush ht).mono fun entry draft hp => ⟨?_, hp.2⟩)
  exact hp.1.apply .popThrowTarget rfl rfl

theorem Holds.addUpdate {guard : Vertex} (hr : builder.InRange)
    (hg : guard.Within builder.draft.blocks.length) (update : Option Element) :
    (Plan.addUpdate guard update).Holds Builder.sealing builder (Reaches builder) := by
  cases update with
  | none => exact .pure ⟨hr, hg⟩
  | some update =>
    have hs := (hr.sealed_enter hg).prepend update
    exact .change_bind Builder.sealing_change
      (.change_bind Builder.sealing_change (.see ⟨hs.toInRange, hs.here⟩))

theorem Seals.loop {plan : Plan Unit} {edge : Vertex → RawEdge} (h : plan.Seals)
    (hs : builder.Sealed) (hw : RawEdge.Waits builder.draft.here (edge builder.draft.here)) :
    (Plan.loop labels edge head update plan).Holds Builder.sealing builder fun vertices draft =>
      Reaches builder vertices.1 draft ∧ Reaches builder vertices.2 draft := by
  refine .see_bind (.see_bind (.change_bind Builder.sealing_change ?_))
  have hguard :
      ((Builder.Step.change (.addGuard (edge builder.draft.here) head)).apply builder).InRange :=
    hs.toInRange.apply _ (hw.within hs.here)
  have hnext := builder.draft.next_within_addGuard (edge builder.draft.here) head
  refine (Holds.addUpdate hguard hnext update).bind fun again draft hle hagain => ?_
  have hafter : builder.draft.here.Within draft.blocks.length := hguard.here.mono hle
  refine (h.withBreakable hagain.1 ?_ hagain.2).bind fun entry draft' hle' hbody => ?_
  · simp [Breakable.targets, hafter, hagain.2]
  obtain ⟨hsealed, rfl⟩ := hbody
  have hwire := hsealed.toInRange.apply (.change (.wire builder.draft.blocks.length))
    (List.forall_mem_singleton.2 hsealed.here)
  have hguard' : builder.draft.next.Within
      (draft'.wire builder.draft.blocks.length).blocks.length := by
    rw [Draft.length_wire]
    exact hnext.mono (Nat.le_trans hle hle')
  exact .change_bind Builder.sealing_change (.pure ⟨⟨hwire, hguard'⟩, hwire, hwire.here⟩)

theorem Holds.tests {clauses : List (Clause × Vertex)} (hr : builder.InRange)
    (ho : other.Within builder.draft.blocks.length)
    (h : ∀ clause ∈ clauses, Vertex.Within builder.draft.blocks.length (Prod.snd clause)) :
    (Plan.tests other pos clauses).Holds Builder.sealing builder (Reaches builder) := by
  induction clauses generalizing pos with
  | nil => exact .pure ⟨hr, ho⟩
  | cons clause clauses ih =>
    obtain ⟨⟨range, _ | test, body⟩, entry⟩ := clause
    · exact ih fun clause hm => h clause (List.mem_cons_of_mem _ hm)
    · refine (ih fun clause hm => h clause (List.mem_cons_of_mem _ hm)).bind
        fun next draft hle hnext => ?_
      have hentry := (h _ (List.mem_cons_self ..)).mono hle
      have hbranch := hnext.1.apply
        (.change (.addTest entry next ⟨pos, .expression test⟩))
        (by simpa [Builder.Step.targets] using ⟨hentry, hnext.2⟩)
      refine .see_bind (.change_bind Builder.sealing_change (.pure ⟨hbranch, ?_⟩))
      simp [Draft.next, Draft.Step.apply]

theorem Holds.handling {plan : Plan Unit} (h : plan.Seals) (hr : builder.InRange)
    (hb : target.Within builder.draft.blocks.length)
    (ht : next.Within builder.draft.blocks.length) (parameter : Option Element) :
    (Plan.handling target next parameter plan).Holds Builder.sealing builder (Enters builder) := by
  refine (h.withThrowTarget hr hb ht).bind fun _ draft _ hp => ?_
  cases parameter with
  | none => exact .see ⟨hp.1, rfl⟩
  | some parameter =>
    exact .change_bind Builder.sealing_change (.see ⟨hp.1.prepend parameter, rfl⟩)

/-- The builder is in range with the draft that a part of a `try` ends with, and the entry of that
part is there, if there is such a part. -/
def Lands (builder : Builder) (entry : Option Vertex) (draft : Draft) : Prop :=
  (builder.withDraft draft).InRange ∧ ∀ target ∈ entry, Vertex.Within draft.blocks.length target

theorem Lands.none (h : (builder.withDraft draft).InRange) : Lands builder Option.none draft :=
  ⟨h, nofun⟩

theorem Holds.some_entry {plan : Plan Vertex}
    (h : plan.Holds Builder.sealing builder (Enters builder)) :
    (some <$> plan).Holds Builder.sealing builder (Lands builder) := by
  refine h.bind fun entry draft _ hp => .pure ⟨hp.1.toInRange, ?_⟩
  rintro _ ⟨⟩
  exact hp.reaches.2

theorem Lands.within_getD (h : Lands builder entry draft)
    (hv : vertex.Within draft.blocks.length) : (entry.getD vertex).Within draft.blocks.length := by
  cases entry with
  | none => exact hv
  | some target => exact h.2 target rfl

theorem Lands.or (h : Lands builder entry draft)
    (h' : ∀ target ∈ entry', Vertex.Within draft.blocks.length target) :
    Lands builder (entry <|> entry') draft := by
  refine ⟨h.1, ?_⟩
  cases entry with
  | none => exact h'
  | some target => exact h.2

end Plan

open Plan Builder

theorem Plan.Holds.enter_prepend (hr : builder.InRange)
    (ht : target.Within builder.draft.blocks.length) (element : Element) :
    (enter target >>= fun _ => prepend element).Holds sealing builder fun _ draft =>
      (builder.withDraft draft).Sealed :=
  .change_bind sealing_change (.change sealing_change ((hr.sealed_enter ht).prepend element))

def Stmt.Seals (stmt : Stmt) : Prop :=
  ∀ (labels : List String) (pos : Nat), (stmt.plan labels pos).Seals

theorem Stmt.plans_seal (h : ∀ stmt ∈ stmts, Stmt.Seals stmt) (pos : Nat) :
    (Stmt.plans pos stmts).Seals := by
  induction stmts generalizing pos with
  | nil => exact fun builder hs => .pure hs
  | cons stmt stmts ih =>
    intro builder hs
    have hrest := ih (fun stmt hm => h stmt (List.mem_cons_of_mem _ hm)) (pos + stmt.size)
    refine (hrest builder hs).bind fun _ draft _ hs' => ?_
    exact Plan.Seals.visiting (h stmt (List.mem_cons_self ..) [] pos) _ hs'

theorem Clause.plans_hold {clauses : List Clause}
    (h : ∀ clause ∈ clauses, ∀ stmt ∈ Clause.body clause, Stmt.Seals stmt)
    (hr : builder.InRange) (ha : after.Within builder.draft.blocks.length) (pos : Nat) :
    (Clause.plans after pos clauses).Holds sealing builder fun entries draft =>
      (builder.withDraft draft).InRange ∧
        ∀ entry ∈ entries, Vertex.Within draft.blocks.length entry := by
  induction clauses generalizing pos with
  | nil => exact .pure ⟨hr, nofun⟩
  | cons clause clauses ih =>
    obtain ⟨range, test, body⟩ := clause
    refine (ih (fun clause hm => h clause (List.mem_cons_of_mem _ hm)) _).bind
      fun entries draft hle hp => ?_
    obtain ⟨hr', hentries⟩ := hp
    have hnext := Vertex.within_headD hentries (ha.mono hle)
    have hbody := Stmt.plans_seal (h _ (List.mem_cons_self ..)) (pos + Expr.optionSize test)
    refine (hbody.subFlow hr' hnext).bind fun entry draft' hle' hentry => ?_
    obtain ⟨hs, rfl⟩ := hentry
    refine .pure ⟨hs.toInRange, List.forall_mem_cons.2 ⟨hs.here, fun entry hm => ?_⟩⟩
    exact (hentries entry hm).mono hle'

theorem Stmt.seals (stmt : Stmt) : stmt.Seals := by
  induction stmt using Stmt.induction with
  | expression | declaration | function | debugger =>
    intro labels pos builder hs
    rw [Stmt.plan]
    exact .change sealing_change (hs.prepend _)
  | empty =>
    intro labels pos builder hs
    rw [Stmt.plan]
    exact .pure hs
  | withStmt =>
    intro labels pos builder hs
    rw [Stmt.plan]
    exact .fail hs _
  | returnStmt =>
    intro labels pos builder hs
    rw [Stmt.plan]
    exact .enter_prepend hs.toInRange Vertex.within_exit _
  | throwStmt =>
    intro labels pos builder hs
    rw [Stmt.plan]
    exact .see_bind (.enter_prepend hs.toInRange hs.toInRange.throwTarget _)
  | jump range kind label =>
    intro labels pos builder hs
    rw [Stmt.plan]
    refine .see_bind (.attempt_bind hs fun target ht => ?_)
    exact .enter_prepend hs.toInRange (hs.toInRange.scope.jumpTarget ht) _
  | ifStmt range test body orElse ihBody ihElse =>
    intro labels pos builder hs
    rw [Stmt.plan]
    refine .see_bind (Holds.bind (m := Reaches builder) ?_ fun onFalse draft hle helse => ?_)
    · cases orElse with
      | none => exact .pure ⟨hs.toInRange, hs.here⟩
      | some orElse =>
        exact ((ihElse orElse rfl [] _).visiting.subFlow hs.toInRange hs.here).mono
          fun _ _ hp => hp.reaches
    · refine ((ihBody [] _).visiting.subFlow helse.1 (hs.here.mono hle)).bind
        fun onTrue draft' hle' hbody => ?_
      have htargets : ∀ target ∈ (RawEdge.branch (some onTrue) onFalse).targets,
          target.Within draft'.blocks.length := by
        simpa [RawEdge.targets, RawEdge.ways] using ⟨hbody.reaches.2, helse.2.mono hle'⟩
      have hbranch := hbody.1.toInRange.sealed_enterBlock htargets
      exact .change_bind sealing_change (.change sealing_change (hbranch.prepend _))
  | whileStmt range test body ih =>
    intro labels pos builder hs
    rw [Stmt.plan]
    refine ((ih [] _).visiting.loop hs .branch).bind fun vertices draft _ hp => ?_
    exact .change sealing_change hp.1.sealed_enter
  | doStmt range body test ih =>
    intro labels pos builder hs
    rw [Stmt.plan]
    refine ((ih [] _).visiting.loop hs .branch).bind fun vertices draft _ hp => ?_
    exact .change sealing_change hp.2.sealed_enter
  | forStmt range init test update body ihInit ih =>
    intro labels pos builder hs
    cases init with
    | none =>
      rw [Stmt.plan]
      refine ((ih [] _).visiting.loop hs (Stmt.waits_forEdge ..)).bind fun vertices draft _ hp => ?_
      exact .change_bind sealing_change (.pure hp.1.sealed_enter)
    | some init =>
      rw [Stmt.plan]
      refine ((ih [] _).visiting.loop hs (Stmt.waits_forEdge ..)).bind fun vertices draft _ hp => ?_
      have hinit := (ihInit init rfl [] (pos + 1)).visiting _ hp.1.sealed_enter
      exact .change_bind sealing_change hinit
  | forEach range kind left right body ih =>
    intro labels pos builder hs
    rw [Stmt.plan]
    refine ((ih [] _).visiting.loop hs .branch).bind fun vertices draft _ hp => ?_
    exact .enter_prepend hp.1.1 hp.1.2 _
  | tryStmt range block handler finalizer ihBlock ihHandler ihFinalizer =>
    intro labels pos builder hs
    obtain ⟨_, body⟩ := block
    rw [Stmt.plan]
    refine .see_bind (.see_bind (Holds.bind (m := Lands builder) ?_
      fun finallyEntry draft hle hfinally => ?_))
    · rcases finalizer with _ | ⟨_, final⟩
      · exact .pure (.none hs.toInRange)
      · exact .some_entry ((Stmt.plans_seal (ihFinalizer _ rfl) _).subFlow hs.toInRange hs.here)
    have hafter := hfinally.within_getD (hs.here.mono hle)
    have houter := hfinally.within_getD (hs.toInRange.throwTarget.mono hle)
    refine Holds.bind (m := Lands builder) ?_ fun catchEntry draft' hle' hcatch => ?_
    · rcases handler with _ | ⟨_, parameter, ⟨_, caught⟩⟩
      · exact .pure (.none hfinally.1)
      · exact .some_entry
          (.handling (Stmt.plans_seal (ihHandler _ rfl) _) hfinally.1 houter hafter _)
    have hentry := hcatch.or fun target hm => (hfinally.2 target hm).mono hle'
    have hbody := (Stmt.plans_seal ihBlock (pos + 1)).withThrowTarget hcatch.1
      (hentry.within_getD (hs.toInRange.throwTarget.mono (Nat.le_trans hle hle')))
      (hentry.within_getD (hs.here.mono (Nat.le_trans hle hle')))
    refine hbody.bind fun entry draft'' _ hp => ?_
    exact .change sealing_change hp.reaches.sealed_enter
  | switchStmt range discriminant clauses ih =>
    intro labels pos builder hs
    rw [Stmt.plan]
    have hpush := hs.toInRange.apply (.pushBreakable ⟨.switch, labels, none, builder.draft.here⟩)
      (by simp [Builder.Step.targets, Breakable.targets, hs.here])
    refine .see_bind (Holds.bind (.withBreakable_sealed (Clause.plans_hold ih hpush hs.here _)) ?_)
    rintro entries draft hle ⟨hr, hentries⟩
    have hpop := hr.apply .popBreakable (List.forall_mem_nil _)
    have hother := Clause.defaultEntry?_within clauses hentries (hs.here.mono hle)
    refine (Holds.tests hpop hother fun clause hm => ?_).bind fun first draft' _ hp => ?_
    · exact hentries _ (List.of_mem_zip hm).2
    · exact .enter_prepend hp.1 hp.2 _
  | block range body ih =>
    intro labels pos builder hs
    rw [Stmt.plan]
    exact Stmt.plans_seal ih _ builder hs
  | labeled range label body ih =>
    intro labels pos builder hs
    rw [Stmt.plan]
    split
    · exact ih _ _ builder hs
    · refine .see_bind (Holds.bind ((ih [] _).visiting.withBreakable hs.toInRange ?_ hs.here) ?_)
      · simp [Breakable.targets, hs.here]
      · exact fun _ _ _ hp => .pure hp.1

theorem Builder.initial_sealed (options : FlowOptions) : (initial options).Sealed where
  here := by simp [initial, Draft.initial, Draft.here]
  targets := by
    simp [targets, initial, Draft.initial, RawBlock.ofEdge, RawEdge.targets, RawEdge.ways]
  fresh := by
    simp [targets, initial, Draft.initial, Draft.here, RawBlock.ofEdge, RawEdge.targets,
      RawEdge.ways]

/-- The graph of a body comes about by a walk through its statements. Whenever a statement is
visited next or has just been, all targets of edges, of jumps and of thrown values are there, and
the current block is none of them. No other block that is there takes in elements any more, and its
edge changes at most once, when it is a waiting guard that is pointed at its body. A visit leaves
behind what surrounds the statement as it has found it. -/
theorem Walk.ofBody_sealed (options : FlowOptions) (pos : Nat) (stmts : List Stmt) :
    (RawGraph.ofBody options pos stmts = (Walk.ofBody options pos stmts).2.map fun _ =>
      ((initial options).run (Walk.ofBody options pos stmts).1).draft.toRawGraph) ∧
    (∀ before behind, (Walk.ofBody options pos stmts).1 = before ++ .visit :: behind →
      ((initial options).run before).Sealed ∧
      ∀ (index : Nat) (block : RawBlock Element),
        ((initial options).run before).draft.blocks[index]? = some block →
        index ≠ ((initial options).run before).draft.current →
        ((initial options).run before).Rests index block behind ∧
        ∀ taken, taken <+: behind → ∃ later,
          (((initial options).run before).run taken).draft.blocks[index]? = some later ∧
            later.elements = block.elements) ∧
    ∀ (stmt : Stmt) (pos : Nat) (builder : Builder), (stmt.visit pos builder).2 = .ok () →
      (builder.run (stmt.visit pos builder).1).breakables = builder.breakables ∧
      (builder.run (stmt.visit pos builder).1).throwTargets = builder.throwTargets := by
  have hseals := (Stmt.plans_seal (fun stmt (_ : stmt ∈ stmts) => stmt.seals) pos _
    (initial_sealed options)).steps
  refine ⟨Walk.ofBody_builds .., fun before behind hs => ⟨hseals.at_split hs rfl, ?_⟩, ?_⟩
  · intro index block hb hc
    have hrests := rests hb hc behind
    exact ⟨hrests, fun taken ht => hrests.elements ht⟩
  · intro stmt pos builder _
    rw [Stmt.visit, Plan.run_walk]
    exact ⟨rfl, rfl⟩

/-- `while (a) x;` -/
def Walk.loopBody : List Stmt :=
  [.whileStmt ⟨0, 12⟩ (.name ⟨7, 8⟩ "a") (.expression ⟨10, 12⟩ (.name ⟨10, 11⟩ "x"))]

/-- When the body of the loop is visited, the guard waits; it is pointed at the body after that. -/
theorem Walk.ofBody_sealed_loopBody :
    ∃ before behind, (Walk.ofBody {} 0 loopBody).1 = before ++ .visit :: behind ∧
      before.length = 4 ∧ behind.length = 6 ∧ ((initial {}).run before).Sealed ∧
      ((initial {}).run before).Rests 1
        ⟨[⟨1, .expression (.name ⟨7, 8⟩ "a")⟩], .branch none (.block 0)⟩ behind := by
  have hsplit : (Walk.ofBody {} 0 loopBody).1 = (Walk.ofBody {} 0 loopBody).1.take 4 ++
      .visit :: (Walk.ofBody {} 0 loopBody).1.drop 5 := by
    rfl
  obtain ⟨hsealed, hrests⟩ := (Walk.ofBody_sealed {} 0 loopBody).2.1 _ _ hsplit
  refine ⟨_, _, hsplit, by decide, by decide, hsealed, (hrests 1 _ ?_ ?_).1⟩
  · rfl
  · decide

end FlowLint
