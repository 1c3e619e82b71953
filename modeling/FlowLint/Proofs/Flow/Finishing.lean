import FlowLint.Proofs.Flow.Failure
import FlowLint.Proofs.Flow.Journal
import FlowLint.Proofs.Flow.Located
import Mathlib.Logic.Relation

namespace FlowLint
set_option autoImplicit true

namespace Draft

variable {draft : Draft} {steps : List Step} {step : Step} {guard : Nat}

theorem length_le_run (draft : Draft) (steps : List Step) :
    draft.blocks.length ≤ (draft.run steps).blocks.length := by
  induction steps generalizing draft with
  | nil => exact Nat.le_refl _
  | cons step steps ih => exact Nat.le_trans (step.length_le_apply draft) (ih _)

theorem Step.wires_eq_false (ha : step.Allowed draft) (hn : ¬ draft.Waits guard) :
    step.wires guard = false := by
  cases step with
  | wire other =>
    have hne : other ≠ guard := by
      rintro rfl
      exact hn ha
    simpa [wires] using hne
  | prepend | enterBlock | addGuard | addTest => rfl

/-- A block that has its targets is not wired any more. -/
theorem Allows.countP_of_wired (h : draft.Allows steps) {block : RawBlock Element}
    (hb : draft.blocks[guard]? = some block) (hw : block.edge.Wired) :
    steps.countP (Step.wires guard) = 0 := by
  induction steps generalizing draft block with
  | nil => rfl
  | cons step steps ih =>
    obtain ⟨ha, hs⟩ := h
    have hn : ¬ draft.Waits guard := by
      rintro ⟨block', hb', hu⟩
      cases hb.symm.trans hb'
      exact hu hw
    have hstep := Step.wires_eq_false ha hn
    obtain ⟨block', hb', he⟩ := Step.edge_apply hstep hb
    rw [List.countP_cons_of_neg (by simp [hstep])]
    exact ih hs hb' (he ▸ hw)

/-- A guard that waits, and has a body in the end, has been wired once. -/
theorem Allows.countP_of_waits (h : draft.Allows steps) (hg : draft.Waits guard)
    (hw : ¬ (draft.run steps).Waits guard) : steps.countP (Step.wires guard) = 1 := by
  induction steps generalizing draft with
  | nil => exact (hw hg).elim
  | cons step steps ih =>
    obtain ⟨ha, hs⟩ := h
    obtain ⟨block, hb, hu⟩ := hg
    cases hstep : step.wires guard with
    | false =>
      obtain ⟨block', hb', he⟩ := Step.edge_apply hstep hb
      rw [List.countP_cons_of_neg (by simp [hstep])]
      exact ih hs ⟨block', hb', he ▸ hu⟩ hw
    | true =>
      cases step with
      | wire other =>
        obtain rfl : other = guard := by simpa [Step.wires] using hstep
        have hwired : (Step.apply (.wire other) draft).blocks[other]? =
            some (block.enterLoop draft.here) := by
          simp [Step.apply, wire, hb]
        rw [List.countP_cons_of_pos hstep, hs.countP_of_wired hwired (RawBlock.wired_enterLoop ..)]
      | prepend | enterBlock | addGuard | addTest => cases hstep

theorem Allows.countP_of_length_le (h : draft.Allows steps)
    (hl : (draft.run steps).blocks.length ≤ guard) : steps.countP (Step.wires guard) = 0 := by
  induction steps generalizing draft with
  | nil => rfl
  | cons step steps ih =>
    obtain ⟨ha, hs⟩ := h
    have hn : ¬ draft.Waits guard := by
      rintro ⟨block, hb, -⟩
      have hlt := (List.getElem?_eq_some_iff.1 hb).1
      have hle := length_le_run draft (step :: steps)
      omega
    rw [List.countP_cons_of_neg (by simp [Step.wires_eq_false ha hn])]
    exact ih hs hl

theorem Allows.countP_eq_one (h : draft.Allows steps)
    (hs : steps = before ++ .addGuard edge head :: behind)
    (hw : ∀ guard, ¬ (draft.run steps).Waits guard) :
    steps.countP (Step.wires (draft.run before).blocks.length) = 1 := by
  obtain ⟨ha, hbehind⟩ := h.at_split hs
  subst hs
  have hbefore := (allows_append.1 h).1
  have hwaits : ((draft.run before).addGuard edge head).Waits (draft.run before).blocks.length :=
    ⟨⟨[head], edge⟩, by simp [Draft.addGuard], ha⟩
  have hend := hw (draft.run before).blocks.length
  rw [run_append] at hend
  rw [List.countP_append, List.countP_cons_of_neg (by simp [Step.wires]),
    hbefore.countP_of_length_le (Nat.le_refl _), hbehind.countP_of_waits hwaits hend]

end Draft

/-- A draft with the steps that led to it. -/
structure Journal where
  steps : List Draft.Step
  draft : Draft

/-- The changes that the walk through a body makes, if it does not fail. -/
def Body.journal (options : FlowOptions) (body : Body) : Except FlowError Journal :=
  let (steps, result) := Walk.ofBody options body.position body.stmts
  result.map fun _ =>
    ⟨steps.filterMap Builder.Step.change?, ((Builder.initial options).run steps).draft⟩

/-- The steps lead to the draft. Each guard is added without its body; it is wired exactly once, and
waits when that happens. -/
structure Journal.Orderly (journal : Journal) : Prop where
  run : Draft.initial.run journal.steps = journal.draft
  unwired : ∀ before edge head behind, journal.steps = before ++ .addGuard edge head :: behind →
    ¬ edge.Wired
  waits : ∀ before guard behind, journal.steps = before ++ .wire guard :: behind →
    (Draft.initial.run before).Waits guard
  once : ∀ before edge head behind, journal.steps = before ++ .addGuard edge head :: behind →
    journal.steps.countP (Draft.Step.wires (Draft.initial.run before).blocks.length) = 1

theorem Draft.Allows.orderly {draft : Draft} (h : Draft.initial.Allows steps)
    (hd : Draft.initial.run steps = draft) (hw : ∀ guard, ¬ draft.Waits guard) :
    Journal.Orderly ⟨steps, draft⟩ where
  run := hd
  unwired _ _ _ _ hs := (h.at_split hs).1
  waits _ _ _ hs := (h.at_split hs).1
  once _ _ _ _ hs := h.countP_eq_one hs (hd ▸ hw)

namespace RawGraph

variable {α : Type} {graph : RawGraph α}

/-- An edge out of a block without elements. -/
def Slips (graph : RawGraph α) (source target : Vertex) : Prop :=
  graph.chart.elements source = [] ∧ graph.chart.Leads source target

open Relation in
/-- Nothing in the graph stands in the way of finishing it. -/
structure Clean (graph : RawGraph α) : Prop where
  inRange : graph.InRange
  wired : ∀ block ∈ graph.blocks, block.edge.Wired
  jumps : ∀ block ∈ graph.blocks, block.isEmpty = true → ∃ target, block.edge = .jump (some target)
  acyclic : ∀ vertex, ¬ TransGen graph.Slips vertex vertex

/-- An empty block leads to an older block or to the exit. -/
theorem Sound.within_of_slips (h : graph.Sound) (hs : graph.Slips source target) :
    ∃ index, source = .block index ∧ target.Within index := by
  obtain ⟨he, side, hw⟩ := hs
  cases source with
  | exit => cases hw
  | block index =>
    cases hb : graph.blocks[index]? with
    | none => simp [chart, hb] at hw
    | some block =>
      simp only [chart, hb, Option.elim_some] at he hw
      obtain ⟨next, hedge, hnext⟩ := (h.block index block hb).empty he
      rw [hedge, RawEdge.ways, List.mem_singleton, Prod.mk.injEq] at hw
      exact ⟨index, rfl, hw.2 ▸ hnext⟩

open Relation in
theorem Sound.within_of_transGen (h : graph.Sound) (hs : TransGen graph.Slips source target) :
    ∃ index, source = .block index ∧ target.Within index := by
  induction hs with
  | single hs => exact h.within_of_slips hs
  | tail _ hs ih =>
    obtain ⟨index, rfl, hi⟩ := ih
    obtain ⟨middle, rfl, hm⟩ := h.within_of_slips hs
    exact ⟨index, rfl, hm.mono (Nat.le_of_lt hi)⟩

theorem Sound.clean (h : graph.Sound) : graph.Clean := by
  refine ⟨h.inRange, fun block hm => ?_, fun block hm he => ?_, fun vertex hs => ?_⟩
  · obtain ⟨index, hb⟩ := List.mem_iff_getElem?.1 hm
    exact h.wired hb
  · obtain ⟨index, hb⟩ := List.mem_iff_getElem?.1 hm
    obtain ⟨target, ht, -⟩ := (h.block index block hb).empty (List.isEmpty_iff.1 he)
    exact ⟨target, ht⟩
  · obtain ⟨index, rfl, hi⟩ := h.within_of_transGen hs
    exact Nat.lt_irrefl index hi

end RawGraph

theorem Body.exists_journal {options : FlowOptions} {body : Body} {raw : RawGraph Element}
    (h : RawGraph.ofBody options body.position body.stmts = .ok raw) :
    ∃ journal, body.journal options = .ok journal ∧ journal.draft.toRawGraph = raw ∧
      journal.Orderly := by
  have hsound := RawGraph.sound_of_ofBody h
  have hallows := (Stmt.plans_proceed (fun stmt (_ : stmt ∈ body.stmts) => stmt.proceeds)
    body.position (.initial options)).steps.allows
  rw [Walk.ofBody_builds] at h
  rcases hw : Walk.ofBody options body.position body.stmts with ⟨steps, error | _⟩
  · rw [hw] at h
    cases h
  · rw [hw] at h
    cases h
    rw [← Walk.ofBody, hw] at hallows
    have hrun := (Builder.draft_run (.initial options) steps).symm
    refine ⟨_, by rw [journal, hw]; rfl, rfl, hallows.orderly hrun ?_⟩
    rintro guard ⟨block, hb, hu⟩
    exact hu (hsound.wired hb)

/-- When the graph of a body can be drafted, every guard in it has been pointed at its body once,
and nothing stands in the way of splicing and freezing it. So no body lacks a graph because of a
defect of the graph. -/
theorem Body.graph_finishes (options : FlowOptions) (body : Body) :
    (∀ raw, RawGraph.ofBody options body.position body.stmts = .ok raw →
      raw.Clean ∧
      (∃ journal, body.journal options = .ok journal ∧ journal.draft.toRawGraph = raw ∧
        journal.Orderly) ∧
      ∃ spliced graph, raw.splice = .ok spliced ∧ spliced.freeze = .ok graph ∧
        body.graph options = .ok graph) ∧
    ∀ error, body.graph options ≠ .error (.graph error) := by
  have hfinish : ∀ raw, RawGraph.ofBody options body.position body.stmts = .ok raw →
      ∃ spliced graph, raw.splice = .ok spliced ∧ spliced.freeze = .ok graph ∧
        body.graph options = .ok graph := by
    intro raw hr
    obtain ⟨spliced, graph, hs, hf⟩ := (RawGraph.sound_of_ofBody hr).exists_finished
    exact ⟨spliced, graph, hs, hf,
      by simp [Body.graph, hr, hs, hf, Except.mapError, bind, Except.bind]⟩
  refine ⟨fun raw hr => ⟨(RawGraph.sound_of_ofBody hr).clean, Body.exists_journal hr,
    hfinish raw hr⟩, fun error he => ?_⟩
  have hlast := (body.graph_failsWithLast options)
  rw [he, FailsWithLast] at hlast
  split at hlast
  · obtain ⟨graph, hg⟩ := hlast
    cases hg
  · next cause hc =>
    cases hlast
    obtain ⟨_, -, hrange⟩ := Body.about_of_mem_offences (List.mem_of_getLast? hc)
    cases hrange

namespace Body

/-- Two loops that wait for their bodies at once, and a jump between them:
`l: while (a) do if (b) continue l; while (c);` -/
def nestedLoops : Body :=
  ⟨.script, ⟨0, 44⟩, 0, [.labeled ⟨0, 44⟩ ⟨"l", ⟨0, 1⟩⟩
    (.whileStmt ⟨3, 44⟩ (.name ⟨10, 11⟩ "a")
      (.doStmt ⟨13, 44⟩
        (.ifStmt ⟨16, 34⟩ (.name ⟨20, 21⟩ "b")
          (.jump ⟨23, 34⟩ .continue (some ⟨"l", ⟨32, 33⟩⟩)) none)
        (.name ⟨42, 43⟩ "c")))]⟩

theorem graph_finishes_nestedLoops :
    ∃ raw, RawGraph.ofBody {} nestedLoops.position nestedLoops.stmts = .ok raw ∧
      raw.blocks.length = 10 ∧ raw.Clean ∧
      (∃ journal, nestedLoops.journal {} = .ok journal ∧ journal.draft.toRawGraph = raw ∧
        journal.Orderly) ∧
      ∃ spliced graph, raw.splice = .ok spliced ∧ spliced.freeze = .ok graph ∧
        nestedLoops.graph {} = .ok graph := by
  obtain ⟨raw, hraw, hlength⟩ : ∃ raw,
      RawGraph.ofBody {} nestedLoops.position nestedLoops.stmts = .ok raw ∧
        raw.blocks.length = 10 := by
    refine ⟨_, by cbv, by decide⟩
  exact ⟨raw, hraw, hlength, (graph_finishes {} nestedLoops).1 raw hraw⟩

end Body

end FlowLint
