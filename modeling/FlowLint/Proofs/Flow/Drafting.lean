import FlowLint.Proofs.Flow.Development

namespace FlowLint
set_option autoImplicit true

/-- All targets of jumps and of thrown values are the exit or one of the first `size` blocks. -/
structure Scope.Within (size : Nat) (scope : Scope) : Prop where
  throwTarget : scope.throwTarget.Within size
  breakTarget : ∀ breakable ∈ scope.breakables, breakable.breakTarget.Within size
  continueTarget : ∀ breakable ∈ scope.breakables, ∀ target ∈ breakable.continueTarget,
    target.Within size

namespace Scope

variable {scope : Scope} {breakable : Breakable} {draft later : Draft}

theorem Within.mono (h : scope.Within n) (hn : n ≤ m) : scope.Within m :=
  ⟨h.throwTarget.mono hn, fun breakable hb => (h.breakTarget breakable hb).mono hn,
    fun breakable hb target ht => (h.continueTarget breakable hb target ht).mono hn⟩

theorem Within.push (h : scope.Within n) (hb : breakable.breakTarget.Within n)
    (hc : ∀ target ∈ breakable.continueTarget, target.Within n) : (scope.push breakable).Within n :=
  ⟨h.throwTarget, List.forall_mem_cons.2 ⟨hb, h.breakTarget⟩,
    List.forall_mem_cons.2 ⟨hc, h.continueTarget⟩⟩

theorem Within.throwingTo (h : scope.Within n) (ht : target.Within n) :
    (scope.throwingTo target).Within n :=
  ⟨ht, h.breakTarget, h.continueTarget⟩

theorem exists_breakable_of_jumpTarget (h : scope.jumpTarget kind label range = .ok target) :
    ∃ breakable ∈ scope.breakables,
      breakable.target kind (label.elim "" (·.name)) range = .ok target := by
  obtain ⟨found, hf, ht⟩ := bind_eq_ok.1 h
  cases found with
  | none => cases ht
  | some breakable =>
    refine ⟨breakable, ?_, ht⟩
    cases label with
    | none => exact List.mem_of_find?_eq_some (Except.ok.inj hf)
    | some label =>
      simp only [Option.map_some, breakable?] at hf
      split at hf
      · next hl =>
        cases hf
        exact List.mem_of_find?_eq_some hl
      · exact List.mem_of_find?_eq_some (Except.ok.inj hf)
      · cases hf

theorem Within.jumpTarget (h : scope.Within n)
    (hj : scope.jumpTarget kind label range = .ok target) :
    target.Within n := by
  obtain ⟨breakable, hb, ht⟩ := exists_breakable_of_jumpTarget hj
  unfold Breakable.target at ht
  split at ht
  · cases ht
    exact h.breakTarget breakable hb
  · next hc =>
    cases ht
    exact h.continueTarget breakable hb _ hc
  · cases ht

/-- Statements can be added to a draft in this scope. -/
structure Fits (scope : Scope) (draft : Draft) : Prop where
  within : scope.Within draft.blocks.length
  ready : draft.Ready

theorem Fits.here (h : scope.Fits draft) : draft.here.Within draft.blocks.length :=
  h.ready.lt_length

theorem Fits.develops (h : scope.Fits draft) (hd : draft.Develops later) : scope.Fits later :=
  ⟨h.within.mono hd.keeps.length_le, hd.ready h.ready⟩

theorem Fits.enter (h : scope.Fits draft) (target : Vertex) : scope.Fits (draft.enter target) :=
  ⟨h.within.mono (by simp), Draft.ready_enter draft target⟩

theorem Fits.addGuard (h : scope.Fits draft) (edge : RawEdge) (head : Element) :
    scope.Fits (draft.addGuard edge head) :=
  ⟨h.within.mono (by simp), h.ready.addGuard edge head⟩

theorem Fits.pushLoop (h : scope.Fits draft) (labels : List String)
    (hc : again.Within draft.blocks.length) (hb : after.Within draft.blocks.length) :
    (scope.pushLoop labels again after).Fits draft :=
  ⟨h.within.push hb (by simpa using hc), h.ready⟩

theorem Fits.pushSwitch (h : scope.Fits draft) (labels : List String)
    (hb : after.Within draft.blocks.length) : (scope.pushSwitch labels after).Fits draft :=
  ⟨h.within.push hb (by simp), h.ready⟩

theorem Fits.pushLabeled (h : scope.Fits draft) (labels : List String)
    (hb : after.Within draft.blocks.length) : (scope.pushLabeled labels after).Fits draft :=
  ⟨h.within.push hb (by simp), h.ready⟩

theorem Fits.throwingTo (h : scope.Fits draft) (ht : target.Within draft.blocks.length) :
    (scope.throwingTo target).Fits draft :=
  ⟨h.within.throwingTo ht, h.ready⟩

end Scope

variable {scope : Scope} {draft later : Draft} {stmts : List Stmt}

/-- Adding a statement develops every draft that it can be added to. -/
def Stmt.Drafts (stmt : Stmt) : Prop :=
  ∀ (scope : Scope) (labels : List String) (pos : Nat) (draft later : Draft), scope.Fits draft →
    stmt.build scope labels pos draft = .ok later → draft.Develops later

theorem Stmt.builds_develops (h : ∀ stmt ∈ stmts, Stmt.Drafts stmt) (hf : scope.Fits draft)
    (hb : Stmt.builds scope pos stmts draft = .ok later) : draft.Develops later := by
  induction stmts generalizing pos later with
  | nil =>
    cases hb
    exact .refl
  | cons stmt stmts ih =>
    rw [Stmt.builds_cons] at hb
    obtain ⟨rest, hr, hs⟩ := bind_eq_ok.1 hb
    have hd := ih (fun stmt hm => h stmt (List.mem_cons_of_mem _ hm)) hr
    exact hd.trans (h stmt (List.mem_cons_self ..) _ _ _ _ _ (hf.develops hd) hs)

theorem Vertex.within_headD {entries : List Vertex}
    (h : ∀ entry ∈ entries, Vertex.Within n entry) (ha : after.Within n) :
    (entries.headD after).Within n := by
  cases entries with
  | nil => exact ha
  | cons entry => exact h entry (List.mem_cons_self ..)

theorem Clause.builds_develops {clauses : List Clause}
    (h : ∀ clause ∈ clauses, ∀ stmt ∈ Clause.body clause, Stmt.Drafts stmt) (hf : scope.Fits draft)
    (ha : after.Within draft.blocks.length)
    (hb : Clause.builds scope after pos clauses draft = .ok (later, entries)) :
    draft.Develops later ∧ ∀ entry ∈ entries, Vertex.Within later.blocks.length entry := by
  induction clauses generalizing pos later entries with
  | nil =>
    cases hb
    exact ⟨.refl, nofun⟩
  | cons clause clauses ih =>
    obtain ⟨range, test, body⟩ := clause
    rw [Clause.builds_cons] at hb
    obtain ⟨⟨rest, behind⟩, hr, hx⟩ := bind_eq_ok.1 hb
    obtain ⟨built, hs, he⟩ := bind_eq_ok.1 hx
    cases he
    obtain ⟨hd, hentries⟩ := ih (fun clause hm => h clause (List.mem_cons_of_mem _ hm)) hr
    have hnext := Vertex.within_headD hentries (ha.mono hd.keeps.length_le)
    have hrest := hf.develops hd
    have hbody := Stmt.builds_develops (h _ (List.mem_cons_self ..)) (hrest.enter _) hs
    have hlater := (Draft.Develops.enter hnext .refl).trans hbody
    refine ⟨hd.trans hlater, List.forall_mem_cons.2 ⟨?_, fun entry hm => ?_⟩⟩
    · exact (hrest.develops hlater).here
    · exact (hentries entry hm).mono hlater.keeps.length_le

theorem Clause.defaultEntry?_within (clauses : List Clause)
    (h : ∀ entry ∈ entries, Vertex.Within n entry) (ha : after.Within n) :
    ((Clause.defaultEntry? clauses entries).getD after).Within n := by
  cases hd : Clause.defaultEntry? clauses entries with
  | none => exact ha
  | some entry =>
    obtain ⟨⟨⟨_, _ | _, _⟩, _⟩, hc, ⟨⟩⟩ := List.exists_of_findSome?_eq_some hd
    exact h _ (List.of_mem_zip hc).2

theorem Clause.addTests_develops {clauses : List (Clause × Vertex)}
    (ho : other.Within draft.blocks.length)
    (h : ∀ clause ∈ clauses, Vertex.Within draft.blocks.length (Prod.snd clause)) :
    draft.Develops (Clause.addTests other pos clauses draft).1 ∧
      (Clause.addTests other pos clauses draft).2.Within
        (Clause.addTests other pos clauses draft).1.blocks.length := by
  induction clauses generalizing pos with
  | nil => exact ⟨.refl, ho⟩
  | cons clause clauses ih =>
    obtain ⟨⟨range, test, body⟩, entry⟩ := clause
    obtain ⟨hentry, hrest⟩ := List.forall_mem_cons.1 h
    cases test with
    | none => exact ih hrest
    | some test =>
      obtain ⟨hd, hnext⟩ := @ih (pos + test.size + Stmt.sizes body) hrest
      exact ⟨.branch (hentry.mono hd.keeps.length_le) hnext _ hd, by simp [addTests]⟩

theorem Stmt.Drafts.buildElse {orElse : Option Stmt} (h : ∀ stmt ∈ orElse, Stmt.Drafts stmt)
    (hf : scope.Fits draft) (hb : Stmt.buildElse scope pos orElse draft = .ok (later, entry)) :
    draft.Develops later ∧ entry.Within later.blocks.length := by
  cases orElse with
  | none =>
    cases hb
    exact ⟨.refl, hf.here⟩
  | some orElse =>
    obtain ⟨built, hs, he⟩ := bind_eq_ok.1 hb
    cases he
    have hd := (Draft.Develops.enter hf.here .refl).trans (h orElse rfl _ _ _ _ _ (hf.enter _) hs)
    exact ⟨hd, (hf.develops hd).here⟩

theorem Draft.addUpdate_develops (hg : again.Within draft.blocks.length)
    (update : Option Element) :
    draft.Develops (draft.addUpdate again update).1 ∧
      (draft.addUpdate again update).2.Within (draft.addUpdate again update).1.blocks.length := by
  cases update with
  | none => exact ⟨.refl, hg⟩
  | some update => exact ⟨.prepend update (.enter hg .refl), by simp [addUpdate, enter]⟩

theorem Draft.next_within_addGuard (draft : Draft) (edge : RawEdge) (head : Element) :
    draft.next.Within (draft.addGuard edge head).blocks.length := by
  simp [next]

/-- The scope of a loop fits the draft to which the body of the loop is added. -/
theorem Scope.Fits.loop (h : scope.Fits draft) (labels : List String) (edge : RawEdge)
    (head : Element) (update : Option Element) :
    let updated := (draft.addGuard edge head).addUpdate draft.next update
    (draft.addGuard edge head).Develops updated.1 ∧
      updated.2.Within updated.1.blocks.length ∧
      (scope.pushLoop labels updated.2 draft.here).Fits updated.1 := by
  have hnext := draft.next_within_addGuard edge head
  obtain ⟨hupdate, hagain⟩ := Draft.addUpdate_develops hnext update
  have hguard := h.addGuard edge head
  have hafter := hguard.here.mono hupdate.keeps.length_le
  exact ⟨hupdate, hagain, (hguard.develops hupdate).pushLoop labels hagain hafter⟩

/-- The edge of a waiting guard; it leaves the loop to `after` or not at all. -/
inductive RawEdge.Waits (after : Vertex) : RawEdge → Prop
  | jump : Waits after (.jump none)
  | branch : Waits after (.branch none after)

theorem RawEdge.Waits.not_wired (h : RawEdge.Waits after edge) : ¬ edge.Wired := by
  cases h <;> simp [Wired]

theorem RawEdge.Waits.within (h : RawEdge.Waits after edge) (ha : after.Within n) :
    ∀ target ∈ edge.targets, target.Within n := by
  cases h <;> simp [targets, ways, ha]

theorem Stmt.waits_forEdge (after : Vertex) (test : Option Expr) :
    (forEdge after test).Waits after := by
  cases test with
  | none => exact .jump
  | some => exact .branch

theorem Stmt.Drafts.buildLoop {body : Stmt} (h : body.Drafts) (hf : scope.Fits draft)
    (hw : RawEdge.Waits draft.here edge)
    (hb : body.buildLoop scope labels edge head update pos draft = .ok later) :
    draft.Develops later ∧ draft.next.Within later.blocks.length := by
  obtain ⟨built, hs, he⟩ := bind_eq_ok.1 hb
  cases he
  obtain ⟨hupdate, hagain, hinner⟩ := hf.loop labels edge head update
  have hbody := hupdate.trans ((Draft.Develops.enter hagain .refl).trans
    (h _ _ _ _ _ (hinner.enter _) hs))
  refine ⟨.loop hw.not_wired (hw.within hf.here) .refl hbody, ?_⟩
  simpa using (draft.next_within_addGuard edge head).mono hbody.keeps.length_le

theorem Stmt.Drafts.optionBuild {init : Option Stmt} (h : ∀ stmt ∈ init, Stmt.Drafts stmt)
    (hf : scope.Fits draft) (hb : Stmt.optionBuild scope pos init draft = .ok later) :
    draft.Develops later := by
  cases init with
  | none =>
    cases hb
    exact .refl
  | some init => exact h init rfl _ _ _ _ _ hf hb

/-- A `try` is drafted from its end: what runs at last, what takes over, and what is tried. -/
theorem Stmt.exists_of_build_tryStmt {range : Range} {block : Block} {handler : Option Handler}
    {finalizer : Option Block}
    (hb : (tryStmt range block handler finalizer).build scope labels pos draft = .ok later) :
    ∃ finished exits caught exits' built,
      Rescue.build scope (draft.here, scope.throwTarget)
        (finalizer.map (·.rescue (pos + 1 + sizes block.body + Handler.optionSize handler)))
        draft = .ok (finished, exits) ∧
      Rescue.build scope exits (handler.map (·.rescue (pos + 1 + sizes block.body))) finished =
        .ok (caught, exits') ∧
      builds (scope.throwingTo exits'.2) (pos + 1) block.body (caught.enter exits'.1) =
        .ok built ∧
      later = built.enter built.here := by
  rw [build_tryStmt] at hb
  obtain ⟨⟨finished, exits⟩, hfinal, hx⟩ := bind_eq_ok.1 hb
  obtain ⟨⟨caught, exits'⟩, hcatch, hy⟩ := bind_eq_ok.1 hx
  obtain ⟨built, hs, he⟩ := bind_eq_ok.1 hy
  cases he
  exact ⟨finished, exits, caught, exits', built, hfinal, hcatch, hs, rfl⟩

theorem Rescue.build_develops {rescue : Option Rescue}
    (h : ∀ part ∈ rescue, ∀ stmt ∈ Rescue.stmts part, Stmt.Drafts stmt) (hf : scope.Fits draft)
    (hn : exits.1.Within draft.blocks.length) (ht : exits.2.Within draft.blocks.length)
    (hb : Rescue.build scope exits rescue draft = .ok (later, exits')) :
    draft.Develops later ∧ exits'.1.Within later.blocks.length ∧
      exits'.2.Within later.blocks.length := by
  cases rescue with
  | none =>
    cases hb
    exact ⟨.refl, hn, ht⟩
  | some rescue =>
    obtain ⟨built, hs, he⟩ := bind_eq_ok.1 hb
    cases he
    have hbody := Stmt.builds_develops (h rescue rfl) ((hf.throwingTo ht).enter _) hs
    have hd := (Draft.Develops.enter hn .refl).trans hbody
    have hlater : draft.Develops (rescue.parameter.elim built built.prepend) := by
      cases rescue.parameter with
      | none => exact hd
      | some parameter => exact .prepend parameter hd
    exact ⟨hlater, (hf.develops hlater).here, (hf.develops hlater).here⟩

theorem Stmt.drafts (stmt : Stmt) : stmt.Drafts := by
  induction stmt using Stmt.induction with
  | expression | declaration | function | debugger =>
    intro scope labels pos draft later hf hb
    cases hb
    exact .prepend _ .refl
  | empty =>
    intro scope labels pos draft later hf hb
    cases hb
    exact .refl
  | withStmt =>
    intro scope labels pos draft later hf hb
    cases hb
  | returnStmt =>
    intro scope labels pos draft later hf hb
    cases hb
    exact .prepend _ (.enter (by simp) .refl)
  | throwStmt =>
    intro scope labels pos draft later hf hb
    cases hb
    exact .prepend _ (.enter hf.within.throwTarget .refl)
  | jump range kind label =>
    intro scope labels pos draft later hf hb
    rw [Stmt.build_jump] at hb
    obtain ⟨target, ht, he⟩ := bind_eq_ok.1 hb
    cases he
    exact .prepend _ (.enter (hf.within.jumpTarget ht) .refl)
  | ifStmt range test body orElse ihBody ihElse =>
    intro scope labels pos draft later hf hb
    rw [Stmt.build_ifStmt] at hb
    obtain ⟨⟨built, onFalse⟩, helse, hx⟩ := bind_eq_ok.1 hb
    obtain ⟨entered, hs, he⟩ := bind_eq_ok.1 hx
    cases he
    obtain ⟨hd, hfalse⟩ := Stmt.Drafts.buildElse ihElse hf helse
    have hbuilt := hf.develops hd
    have hbody := (Draft.Develops.enter (hf.here.mono hd.keeps.length_le) .refl).trans
      (ihBody _ _ _ _ _ (hbuilt.enter _) hs)
    have hfalse' := hfalse.mono hbody.keeps.length_le
    exact .branch (hbuilt.develops hbody).here hfalse' _ (hd.trans hbody)
  | whileStmt range test body ih =>
    intro scope labels pos draft later hf hb
    rw [Stmt.build_whileStmt] at hb
    obtain ⟨built, hs, he⟩ := bind_eq_ok.1 hb
    cases he
    obtain ⟨hd, hnext⟩ := ih.buildLoop hf .branch hs
    exact .enter hnext hd
  | doStmt range body test ih =>
    intro scope labels pos draft later hf hb
    rw [Stmt.build_doStmt] at hb
    obtain ⟨built, hs, he⟩ := bind_eq_ok.1 hb
    cases he
    obtain ⟨hd, hnext⟩ := ih.buildLoop hf .branch hs
    exact .enter (hf.develops hd).here hd
  | forStmt range init test update body ihInit ih =>
    intro scope labels pos draft later hf hb
    rw [Stmt.build_forStmt] at hb
    obtain ⟨built, hs, hi⟩ := bind_eq_ok.1 hb
    obtain ⟨hd, hnext⟩ := ih.buildLoop hf (Stmt.waits_forEdge ..) hs
    have hentered := hd.trans (.enter hnext .refl)
    exact hentered.trans (Stmt.Drafts.optionBuild ihInit (hf.develops hentered) hi)
  | forEach range kind left right body ih =>
    intro scope labels pos draft later hf hb
    rw [Stmt.build_forEach] at hb
    obtain ⟨built, hs, he⟩ := bind_eq_ok.1 hb
    cases he
    obtain ⟨hd, hnext⟩ := ih.buildLoop hf .branch hs
    exact .prepend _ (.enter hnext hd)
  | tryStmt range block handler finalizer ihBlock ihHandler ihFinalizer =>
    intro scope labels pos draft later hf hb
    obtain ⟨finished, exits, caught, exits', built, hfinal, hcatch, hs, rfl⟩ :=
      Stmt.exists_of_build_tryStmt hb
    obtain ⟨hd, hn, ht⟩ := Rescue.build_develops (Block.forall_rescue ihFinalizer _) hf hf.here
      hf.within.throwTarget hfinal
    obtain ⟨hd', hn', ht'⟩ := Rescue.build_develops (Handler.forall_rescue ihHandler _)
      (hf.develops hd) hn ht hcatch
    have hcaught := hf.develops (hd.trans hd')
    have hbody := Stmt.builds_develops ihBlock ((hcaught.throwingTo ht').enter _) hs
    have hbuilt := (hd.trans hd').trans ((Draft.Develops.enter hn' .refl).trans hbody)
    exact .enter (hf.develops hbuilt).here hbuilt
  | switchStmt range discriminant clauses ih =>
    intro scope labels pos draft later hf hb
    rw [Stmt.build_switchStmt] at hb
    obtain ⟨⟨built, entries⟩, hs, he⟩ := bind_eq_ok.1 hb
    cases he
    obtain ⟨hd, hentries⟩ := Clause.builds_develops ih (hf.pushSwitch _ hf.here) hf.here hs
    have hother := Clause.defaultEntry?_within clauses hentries (hf.here.mono hd.keeps.length_le)
    have hzip : ∀ clause ∈ clauses.zip entries, Vertex.Within built.blocks.length clause.2 :=
      fun clause hm => hentries _ (List.of_mem_zip hm).2
    obtain ⟨hd', hfirst⟩ := Clause.addTests_develops hother hzip
    exact .prepend _ (.enter hfirst (hd.trans hd'))
  | block range body ih =>
    intro scope labels pos draft later hf hb
    rw [Stmt.build_block] at hb
    exact Stmt.builds_develops ih hf hb
  | labeled range label body ih =>
    intro scope labels pos draft later hf hb
    rw [Stmt.build_labeled] at hb
    split at hb
    · exact ih _ _ _ _ _ hf hb
    · exact (Draft.Develops.enter hf.here .refl).trans
        (ih _ _ _ _ _ ((hf.pushLabeled _ hf.here).enter _) hb)

theorem Stmt.builds_ready {stmts : List Stmt} (hf : scope.Fits draft)
    (hb : Stmt.builds scope pos stmts draft = .ok later) : later.Ready :=
  (Stmt.builds_develops (fun stmt _ => stmt.drafts) hf hb).ready hf.ready

theorem Scope.outermost_fits (options : FlowOptions) : (outermost options).Fits Draft.initial :=
  ⟨⟨trivial, nofun, nofun⟩, ⟨_, rfl, RawEdge.wired_jump _⟩⟩

theorem Draft.initial_sound : initial.Sound [] := by
  refine ⟨by simp [here, initial], fun index block hb => ?_⟩
  obtain ⟨rfl, rfl⟩ : index = 0 ∧ block = .ofEdge (.jump (some .exit)) := by
    simpa [initial, List.getElem?_singleton, eq_comm] using hb
  exact RawBlock.tidy_jump trivial (by simp [initial])

/-- The graph of a body is a sound draft in which no guard waits. -/
theorem RawGraph.ofBody_sound (h : RawGraph.ofBody options pos body = .ok raw) :
    ∃ draft : Draft, draft.Sound [] ∧ draft.toRawGraph = raw := by
  obtain ⟨draft, hb, he⟩ := bind_eq_ok.1 h
  cases he
  have hd := Stmt.builds_develops (fun stmt _ => stmt.drafts) (Scope.outermost_fits options) hb
  exact ⟨draft, hd.sound Draft.initial_sound, rfl⟩

end FlowLint
