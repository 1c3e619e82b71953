import FlowLint.Proofs.Flow.Role
import FlowLint.Proofs.Flow.Stages

namespace FlowLint
set_option autoImplicit true

/-- The edge of a block that a node with a role ends; more can be put in front of it. -/
inductive Role.Closes : Role → RawEdge → Prop
  | jump (target : Vertex) : Closes .jump (.jump (some target))
  | leave : Closes .leave (.jump (some .exit))
  | test (onTrue onFalse : Vertex) : Closes .test (.branch (some onTrue) onFalse)

/-- The edge of a guard with a role that waits for the body of its loop. -/
inductive Role.Guards : Role → RawEdge → Prop
  | guard (after : Vertex) : Guards .guard (.branch none after)
  | endless : Guards .endless (.jump none)

namespace Draft

/-- What becomes of a draft while nodes with roles are added. A case test is added as a guard that
does not wait: the current block stays. -/
inductive Progresses (roles : List (Element × Role)) : Draft → Draft → Prop
  | refl : Progresses roles draft draft
  | prepend (hr : (element, .plain) ∈ roles) (h : Progresses roles draft later) :
      Progresses roles draft (later.prepend element)
  | enter (ht : target.Within later.blocks.length) (h : Progresses roles draft later) :
      Progresses roles draft (later.enter target)
  | close (hr : (element, role) ∈ roles) (hc : role.Closes edge)
      (ht : ∀ target ∈ edge.targets, target.Within later.blocks.length)
      (h : Progresses roles draft later) :
      Progresses roles draft ((later.enterBlock edge).prepend element)
  | choose (hr : (element, .guard) ∈ roles) (ht : onTrue.Within later.blocks.length)
      (hf : onFalse.Within later.blocks.length) (h : Progresses roles draft later) :
      Progresses roles draft (later.addGuard (.branch (some onTrue) onFalse) element)
  | loop (hr : (head, role) ∈ roles) (hg : role.Guards edge)
      (ht : ∀ target ∈ edge.targets, target.Within later.blocks.length)
      (h : Progresses roles draft later) (hb : Progresses roles (later.addGuard edge head) built) :
      Progresses roles draft (built.wire later.blocks.length)

variable {roles : List (Element × Role)} {draft middle later : Draft}

theorem Progresses.trans (h : draft.Progresses roles middle) (h' : middle.Progresses roles later) :
    draft.Progresses roles later := by
  induction h' with
  | refl => exact h
  | prepend hr _ ih => exact .prepend hr (ih h)
  | enter ht _ ih => exact .enter ht (ih h)
  | close hr hc ht _ ih => exact .close hr hc ht (ih h)
  | choose hr ht hf _ ih => exact .choose hr ht hf (ih h)
  | loop hr hg ht _ hb ih _ => exact .loop hr hg ht (ih h) hb

theorem Progresses.length_le (h : draft.Progresses roles later) :
    draft.blocks.length ≤ later.blocks.length := by
  induction h with
  | refl => exact Nat.le_refl _
  | prepend _ _ ih => simpa using ih
  | enter _ _ ih | close _ _ _ _ ih | choose _ _ _ _ ih => simpa using Nat.le_succ_of_le ih
  | loop _ _ _ _ _ ih ih' =>
    rw [length_addGuard] at ih'
    rw [length_wire]
    omega

theorem Progresses.addUpdate (hu : ∀ element ∈ update, (element, Role.plain) ∈ roles)
    (ht : target.Within later.blocks.length) (h : draft.Progresses roles later) :
    draft.Progresses roles (later.addUpdate target update).1 := by
  cases update with
  | none => exact h
  | some update => exact .prepend (hu update rfl) (.enter ht h)

theorem enter_congr (h : draft.blocks = later.blocks) (target : Vertex) :
    draft.enter target = later.enter target := by
  rw [enter, enterBlock, h, enter, enterBlock]

end Draft

variable {roles : List (Element × Role)} {scope : Scope} {draft later : Draft} {stmts : List Stmt}

/-- Adding a statement is a progress of every draft that it can be added to. -/
def Stmt.Progresses (roles : List (Element × Role)) (stmt : Stmt) : Prop :=
  ∀ (scope : Scope) (labels : List String) (pos : Nat) (draft later : Draft), scope.Fits draft →
    stmt.roles pos ⊆ roles → stmt.build scope labels pos draft = .ok later →
    draft.Progresses roles later

theorem Stmt.builds_progress (h : ∀ stmt ∈ stmts, Stmt.Progresses roles stmt)
    (hf : scope.Fits draft) (hr : Stmt.rolesIn pos stmts ⊆ roles)
    (hb : Stmt.builds scope pos stmts draft = .ok later) : draft.Progresses roles later := by
  induction stmts generalizing pos later with
  | nil =>
    cases hb
    exact .refl
  | cons stmt stmts ih =>
    obtain ⟨hstmt, hstmts⟩ := List.forall_mem_cons.1 h
    rw [Stmt.builds_cons] at hb
    obtain ⟨rest, hrest, hs⟩ := bind_eq_ok.1 hb
    rw [rolesIn, List.append_subset] at hr
    have hd := Stmt.builds_develops (fun stmt _ => stmt.drafts) hf hrest
    exact (ih hstmts hr.2 hrest).trans (hstmt _ _ _ _ _ (hf.develops hd) hr.1 hs)

theorem Stmt.Progresses.buildElse {orElse : Option Stmt}
    (h : ∀ stmt ∈ orElse, Stmt.Progresses roles stmt) (hf : scope.Fits draft)
    (hr : orElse.elim [] (·.roles pos) ⊆ roles)
    (hb : Stmt.buildElse scope pos orElse draft = .ok (later, entry)) :
    draft.Progresses roles later := by
  cases orElse with
  | none =>
    cases hb
    exact .refl
  | some orElse =>
    obtain ⟨built, hs, he⟩ := bind_eq_ok.1 hb
    cases he
    exact (Draft.Progresses.enter hf.here .refl).trans
      (h orElse rfl _ _ _ _ _ (hf.enter _) hr hs)

theorem Stmt.Progresses.optionBuild {init : Option Stmt}
    (h : ∀ stmt ∈ init, Stmt.Progresses roles stmt) (hf : scope.Fits draft)
    (hr : init.elim [] (·.roles pos) ⊆ roles)
    (hb : Stmt.optionBuild scope pos init draft = .ok later) : draft.Progresses roles later := by
  cases init with
  | none =>
    cases hb
    exact .refl
  | some init => exact h init rfl _ _ _ _ _ hf hr hb

theorem Stmt.Progresses.buildLoop {body : Stmt} (h : body.Progresses roles) (hf : scope.Fits draft)
    (hg : role.Guards edge) (hw : RawEdge.Waits draft.here edge) (hh : (head, role) ∈ roles)
    (hu : ∀ element ∈ update, (element, Role.plain) ∈ roles) (hr : body.roles pos ⊆ roles)
    (hb : body.buildLoop scope labels edge head update pos draft = .ok later) :
    draft.Progresses roles later := by
  obtain ⟨built, hs, he⟩ := bind_eq_ok.1 hb
  cases he
  obtain ⟨-, hagain, hinner⟩ := hf.loop labels edge head update
  have hbody := h _ _ _ _ _ (hinner.enter _) hr hs
  have hnext := draft.next_within_addGuard edge head
  have hentered := Draft.Progresses.enter hagain (.addUpdate hu hnext .refl)
  exact .loop hh hg (hw.within hf.here) .refl (hentered.trans hbody)

theorem Rescue.build_progress {rescue : Option Rescue}
    (h : ∀ part ∈ rescue, ∀ stmt ∈ Rescue.stmts part, Stmt.Progresses roles stmt)
    (hf : scope.Fits draft) (hn : exits.1.Within draft.blocks.length)
    (ht : exits.2.Within draft.blocks.length) (hr : rescue.elim [] Rescue.roles ⊆ roles)
    (hb : Rescue.build scope exits rescue draft = .ok (later, exits')) :
    draft.Progresses roles later := by
  cases rescue with
  | none =>
    cases hb
    exact .refl
  | some rescue =>
    obtain ⟨built, hs, he⟩ := bind_eq_ok.1 hb
    cases he
    rw [Option.elim_some, Rescue.roles, List.append_subset] at hr
    have hbody := Stmt.builds_progress (h rescue rfl) ((hf.throwingTo ht).enter _) hr.2 hs
    have hbuilt := (Draft.Progresses.enter hn .refl).trans hbody
    cases hp : rescue.parameter with
    | none => exact hbuilt
    | some parameter => exact .prepend (hr.1 (by simp [hp])) hbuilt

theorem Clause.builds_progress {clauses : List Clause}
    (h : ∀ clause ∈ clauses, ∀ stmt ∈ Clause.body clause, Stmt.Progresses roles stmt)
    (hf : scope.Fits draft) (ha : after.Within draft.blocks.length)
    (hr : Clause.roles pos clauses ⊆ roles)
    (hb : Clause.builds scope after pos clauses draft = .ok (later, entries)) :
    draft.Progresses roles later ∧ entries.length = clauses.length := by
  induction clauses generalizing pos later entries with
  | nil =>
    cases hb
    exact ⟨.refl, rfl⟩
  | cons clause clauses ih =>
    obtain ⟨range, test, body⟩ := clause
    obtain ⟨hclause, hclauses⟩ := List.forall_mem_cons.1 h
    rw [Clause.builds_cons] at hb
    obtain ⟨⟨rest, behind⟩, hrest, hx⟩ := bind_eq_ok.1 hb
    obtain ⟨built, hs, he⟩ := bind_eq_ok.1 hx
    cases he
    simp only [Clause.roles, List.append_subset] at hr
    obtain ⟨⟨-, hbody⟩, hothers⟩ := hr
    obtain ⟨hd, hentries⟩ := Clause.builds_develops
      (fun _ _ stmt _ => stmt.drafts) hf ha hrest
    have hnext := Vertex.within_headD hentries (ha.mono hd.keeps.length_le)
    obtain ⟨hp, hl⟩ := ih hclauses hothers hrest
    have hbuilt := Stmt.builds_progress hclause ((hf.develops hd).enter _) hbody hs
    exact ⟨(Draft.Progresses.enter hnext hp).trans hbuilt, congrArg (· + 1) hl⟩

/-- The tests of clauses stand alone, so in front of them goes on what does not know of them. -/
theorem Clause.addTests_progress {clauses : List Clause} {entries : List Vertex}
    (hl : entries.length = clauses.length) (ho : other.Within draft.blocks.length)
    (he : ∀ entry ∈ entries, Vertex.Within draft.blocks.length entry)
    (hr : Clause.roles pos clauses ⊆ roles) :
    ∃ tested, draft.Progresses roles tested ∧
      (Clause.addTests other pos (clauses.zip entries) draft).1.blocks = tested.blocks := by
  induction clauses generalizing pos entries with
  | nil => exact ⟨draft, .refl, rfl⟩
  | cons clause clauses ih =>
    obtain ⟨range, test, body⟩ := clause
    obtain ⟨entry, entries, rfl⟩ := List.exists_cons_of_length_eq_add_one hl
    obtain ⟨hentry, hentries⟩ := List.forall_mem_cons.1 he
    simp only [Clause.roles, List.append_subset] at hr
    obtain ⟨⟨htest, -⟩, hothers⟩ := hr
    obtain ⟨tested, hp, hblocks⟩ := ih (Nat.succ.inj hl) hentries hothers
    cases test with
    | none => exact ⟨tested, hp, hblocks⟩
    | some test =>
      have hzip : ∀ clause ∈ clauses.zip entries, Vertex.Within draft.blocks.length clause.2 :=
        fun clause hm => hentries _ (List.of_mem_zip hm).2
      have hnext : Vertex.Within _ (Clause.addTests other
          (pos + Expr.optionSize (some test) + Stmt.sizes body) (clauses.zip entries) draft).2 :=
        (Clause.addTests_develops ho hzip).2
      rw [hblocks] at hnext
      have hplace := hentry.mono hp.length_le
      refine ⟨_, .choose (htest (List.mem_singleton_self _)) hplace hnext hp, ?_⟩
      rw [List.zip_cons_cons, Clause.addTests]
      simp only [Draft.enterBlock_prepend, Draft.addGuard]
      exact congrArg (· ++ _) hblocks

theorem Stmt.progresses (stmt : Stmt) : stmt.Progresses roles := by
  induction stmt using Stmt.induction with
  | expression | declaration | function | debugger =>
    intro scope labels pos draft later hf hr hb
    cases hb
    exact .prepend (hr (List.mem_singleton_self _)) .refl
  | empty =>
    intro scope labels pos draft later hf hr hb
    cases hb
    exact .refl
  | withStmt =>
    intro scope labels pos draft later hf hr hb
    cases hb
  | returnStmt =>
    intro scope labels pos draft later hf hr hb
    cases hb
    exact .close (hr (List.mem_singleton_self _)) .leave (by simp [RawEdge.targets, RawEdge.ways])
      .refl
  | throwStmt =>
    intro scope labels pos draft later hf hr hb
    cases hb
    exact .close (hr (List.mem_singleton_self _)) (.jump _)
      (List.forall_mem_singleton.2 hf.within.throwTarget) .refl
  | jump range kind label =>
    intro scope labels pos draft later hf hr hb
    rw [Stmt.build_jump] at hb
    obtain ⟨target, ht, he⟩ := bind_eq_ok.1 hb
    cases he
    exact .close (hr (List.mem_singleton_self _)) (.jump _)
      (List.forall_mem_singleton.2 (hf.within.jumpTarget ht)) .refl
  | ifStmt range test body orElse ihBody ihElse =>
    intro scope labels pos draft later hf hr hb
    rw [Stmt.build_ifStmt] at hb
    rw [roles_ifStmt, List.cons_append, List.cons_subset, List.append_subset] at hr
    obtain ⟨htest, hbody, horElse⟩ := hr
    obtain ⟨⟨built, onFalse⟩, helse, hx⟩ := bind_eq_ok.1 hb
    obtain ⟨entered, hs, he⟩ := bind_eq_ok.1 hx
    cases he
    obtain ⟨hd, hfalse⟩ := Stmt.Drafts.buildElse (fun stmt _ => stmt.drafts) hf helse
    have hbuilt := hf.develops hd
    have hafter := hf.here.mono hd.keeps.length_le
    have hentered := (Draft.Develops.enter hafter .refl).trans
      (body.drafts _ _ _ _ _ (hbuilt.enter _) hs)
    have hp := Stmt.Progresses.buildElse ihElse hf horElse helse
    have hp' := (Draft.Progresses.enter hafter hp).trans
      (ihBody _ _ _ _ _ (hbuilt.enter _) hbody hs)
    refine .close htest (.test _ _) (List.forall_mem_cons.2 ⟨?_, ?_⟩) hp'
    · exact (hbuilt.develops hentered).here
    · exact List.forall_mem_singleton.2 (hfalse.mono hentered.keeps.length_le)
  | whileStmt range test body ih =>
    intro scope labels pos draft later hf hr hb
    rw [Stmt.build_whileStmt] at hb
    obtain ⟨built, hs, he⟩ := bind_eq_ok.1 hb
    cases he
    obtain ⟨hhead, hbody⟩ := List.cons_subset.1 hr
    obtain ⟨-, hnext⟩ := body.drafts.buildLoop hf .branch hs
    exact .enter hnext (ih.buildLoop hf (.guard _) .branch hhead (by simp) hbody hs)
  | doStmt range body test ih =>
    intro scope labels pos draft later hf hr hb
    rw [Stmt.build_doStmt] at hb
    obtain ⟨built, hs, he⟩ := bind_eq_ok.1 hb
    cases he
    obtain ⟨hbody, hhead⟩ := List.append_subset.1 hr
    obtain ⟨hd, -⟩ := body.drafts.buildLoop hf .branch hs
    exact .enter (hf.develops hd).here (ih.buildLoop hf (.guard _) .branch
      (hhead (List.mem_singleton_self _)) (by simp) hbody hs)
  | forStmt range init test update body ihInit ih =>
    intro scope labels pos draft later hf hr hb
    rw [Stmt.build_forStmt] at hb
    simp only [roles_forStmt, List.append_subset] at hr
    obtain ⟨⟨⟨⟨hself, hinit⟩, htest⟩, hbody⟩, hupdate⟩ := hr
    obtain ⟨built, hs, hi⟩ := bind_eq_ok.1 hb
    obtain ⟨hd, hnext⟩ := body.drafts.buildLoop hf (Stmt.waits_forEdge ..) hs
    have hentered := hd.trans (.enter hnext .refl)
    have hguard : ∃ role, Role.Guards role (forEdge draft.here test) ∧
        (forHead pos (pos + 1 + optionSize init) (forStmt range init test update body) test, role) ∈
          roles := by
      cases test with
      | none => exact ⟨.endless, .endless, hself (List.mem_singleton_self _)⟩
      | some test => exact ⟨.guard, .guard _, htest (List.mem_singleton_self _)⟩
    obtain ⟨role, hg, hhead⟩ := hguard
    have hagain : ∀ element ∈ update.map (fun update => Element.mk (pos + 1 + optionSize init +
        Expr.optionSize test + body.size) (.expression update)), (element, Role.plain) ∈ roles := by
      cases update with
      | none => simp
      | some update => simpa [Expr.optionRoles, Expr.optionEvaluated] using hupdate
    have hloop := ih.buildLoop hf hg (Stmt.waits_forEdge ..) hhead hagain hbody hs
    exact (Draft.Progresses.enter hnext hloop).trans
      (Stmt.Progresses.optionBuild ihInit (hf.develops hentered) hinit hi)
  | forEach range kind left right body ih =>
    intro scope labels pos draft later hf hr hb
    rw [Stmt.build_forEach] at hb
    obtain ⟨built, hs, he⟩ := bind_eq_ok.1 hb
    cases he
    simp only [Stmt.roles, List.cons_subset] at hr
    obtain ⟨hright, hleft, hbody⟩ := hr
    obtain ⟨hd, hnext⟩ := body.drafts.buildLoop hf .branch hs
    exact .prepend hright (.enter hnext
      (ih.buildLoop hf (.guard _) .branch hleft (by simp) hbody hs))
  | tryStmt range block handler finalizer ihBlock ihHandler ihFinalizer =>
    intro scope labels pos draft later hf hr hb
    simp only [roles_tryStmt, List.append_subset] at hr
    obtain ⟨⟨hblock, hhandler⟩, hfinalizer⟩ := hr
    obtain ⟨finished, exits, caught, exits', built, hfinal, hcatch, hs, rfl⟩ :=
      Stmt.exists_of_build_tryStmt hb
    obtain ⟨hd, hn, ht⟩ := Rescue.build_develops (fun _ _ stmt _ => stmt.drafts) hf hf.here
      hf.within.throwTarget hfinal
    have hfinished := hf.develops hd
    obtain ⟨hd', hn', ht'⟩ := Rescue.build_develops (fun _ _ stmt _ => stmt.drafts) hfinished hn ht
      hcatch
    have hcaught := (hfinished.develops hd').throwingTo ht'
    have hp := Rescue.build_progress (Block.forall_rescue ihFinalizer _) hf hf.here
      hf.within.throwTarget hfinalizer hfinal
    have hp' := Rescue.build_progress (Handler.forall_rescue ihHandler _) hfinished hn ht hhandler
      hcatch
    have hbody := Stmt.builds_progress ihBlock (hcaught.enter _) hblock hs
    have hbuilt := (Draft.Progresses.enter hn' (hp.trans hp')).trans hbody
    have hd'' := Stmt.builds_develops (fun stmt _ => stmt.drafts) (hcaught.enter _) hs
    exact .enter ((hcaught.enter _).develops hd'').here hbuilt
  | switchStmt range discriminant clauses ih =>
    intro scope labels pos draft later hf hr hb
    rw [Stmt.build_switchStmt] at hb
    obtain ⟨⟨built, entries⟩, hs, he⟩ := bind_eq_ok.1 hb
    cases he
    obtain ⟨hhead, hclauses⟩ := List.cons_subset.1 hr
    obtain ⟨hd, hentries⟩ := Clause.builds_develops (fun _ _ stmt _ => stmt.drafts)
      (hf.pushSwitch _ hf.here) hf.here hs
    obtain ⟨hp, hl⟩ := Clause.builds_progress ih (hf.pushSwitch _ hf.here) hf.here hclauses hs
    have hother := Clause.defaultEntry?_within clauses hentries (hf.here.mono hd.keeps.length_le)
    have hzip : ∀ clause ∈ clauses.zip entries, Vertex.Within built.blocks.length clause.2 :=
      fun clause hm => hentries _ (List.of_mem_zip hm).2
    obtain ⟨-, hfirst⟩ := Clause.addTests_develops hother hzip
    obtain ⟨tested, hp', hblocks⟩ := Clause.addTests_progress hl hother hentries hclauses
    rw [hblocks] at hfirst
    rw [Draft.enter_congr hblocks]
    exact .prepend hhead (.enter hfirst (hp.trans hp'))
  | block range body ih =>
    intro scope labels pos draft later hf hr hb
    rw [Stmt.build_block] at hb
    exact Stmt.builds_progress ih hf hr hb
  | labeled range label body ih =>
    intro scope labels pos draft later hf hr hb
    rw [Stmt.build_labeled] at hb
    split at hb
    · exact ih _ _ _ _ _ hf hr hb
    · exact (Draft.Progresses.enter hf.here .refl).trans
        (ih _ _ _ _ _ ((hf.pushLabeled _ hf.here).enter _) hr hb)

/-- The graph of a body comes from a draft that its nodes have been added to in their roles. -/
theorem Body.exists_progress {body : Body} {graph : Graph Element}
    (h : body.graph options = .ok graph) :
    ∃ draft spliced place place', Draft.initial.Progresses body.roles draft ∧
      draft.toRawGraph.SplicedTo spliced place ∧ spliced.FrozenTo graph place' := by
  obtain ⟨raw, spliced, place, place', hraw, hspliced, hfrozen⟩ := exists_stages h
  obtain ⟨draft, hb, he⟩ := bind_eq_ok.1 hraw
  cases he
  have hprogress := Stmt.builds_progress (fun stmt _ => stmt.progresses)
    (Scope.outermost_fits options) (List.Subset.refl body.roles) hb
  exact ⟨draft, spliced, place, place', hprogress, hspliced, hfrozen⟩

end FlowLint
