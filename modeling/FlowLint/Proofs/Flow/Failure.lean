import FlowLint.Flow.Build
import FlowLint.Proofs.Flow.Drafting
import FlowLint.Proofs.Flow.Freeze
import FlowLint.Proofs.Flow.Offence
import FlowLint.Proofs.Flow.Splice

namespace FlowLint
set_option autoImplicit true

theorem RawEdge.exists_mapTargets {f : Vertex → Except GraphError Vertex} {edge : RawEdge}
    (hf : ∀ target ∈ edge.targets, ∃ target', f target = .ok target') :
    ∃ edge', edge.mapTargets f = .ok edge' := by
  cases edge with
  | jump target =>
    cases target with
    | none => exact ⟨.jump none, rfl⟩
    | some target =>
      obtain ⟨target', ht⟩ := hf target (by simp [targets, ways])
      exact ⟨.jump (some target'), by simp [mapTargets, ht, bind, Except.bind, pure, Except.pure]⟩
  | branch onTrue onFalse =>
    cases onTrue with
    | none =>
      obtain ⟨onFalse', ho⟩ := hf onFalse (by simp [targets, ways])
      exact ⟨.branch none onFalse',
        by simp [mapTargets, ho, bind, Except.bind, pure, Except.pure]⟩
    | some onTrue =>
      obtain ⟨onTrue', ht⟩ := hf onTrue (by simp [targets, ways])
      obtain ⟨onFalse', ho⟩ := hf onFalse (by simp [targets, ways])
      exact ⟨.branch (some onTrue') onFalse',
        by simp [mapTargets, ht, ho, bind, Except.bind, pure, Except.pure]⟩

theorem RawEdge.Redirects.wired (h : Redirects stands edge edge') (hw : edge.Wired) :
    edge'.Wired := by
  cases h with
  | unwiredJump | unwiredBranch => cases hw
  | jump => exact wired_jump _
  | branch => exact wired_branch _ _

namespace RawGraph

/-- Every edge has its targets, and every empty block leads to an older one or to the exit. -/
structure Sound {α : Type} (graph : RawGraph α) : Prop where
  start : graph.start.Within graph.blocks.length
  block : ∀ (index : Nat) (block : RawBlock α), graph.blocks[index]? = some block →
    block.Tidy graph.blocks.length index False

variable {α : Type} {graph result : RawGraph α} {block : RawBlock α} {index : Nat}

theorem sound_of_ofBody (h : RawGraph.ofBody options pos body = .ok raw) : raw.Sound := by
  obtain ⟨draft, hs, rfl⟩ := ofBody_sound h
  exact ⟨hs.here, fun index block hb => (hs.block index block hb).mono (Nat.le_refl _) (by simp)⟩

theorem Sound.inRange (h : graph.Sound) : graph.InRange := by
  refine ⟨fun block hm => ?_, h.start⟩
  obtain ⟨index, hb⟩ := List.mem_iff_getElem?.1 hm
  exact (h.block index block hb).within

theorem Sound.wired (h : graph.Sound) (hb : graph.blocks[index]? = some block) :
    block.edge.Wired :=
  (h.block index block hb).wired.resolve_right id

theorem Sound.defect?_eq_none (h : graph.Sound) : graph.defect? = none := by
  rw [RawGraph.defect?_eq_none]
  intro index block hb
  unfold RawBlock.defect?
  split
  · next he =>
    obtain ⟨target, ht, -⟩ := (h.block index block hb).empty (List.isEmpty_iff.1 he)
    rw [ht]
  · rfl

theorem Sound.bypass?_within (h : graph.Sound) (hb : graph.bypass? index = some next) :
    next.Within index := by
  have hi := bypass?_eq_some.1 hb
  obtain ⟨target, ht, hw⟩ := (h.block index _ hi).empty rfl
  cases ht
  exact hw

/-- A chain of empty blocks leads to older and older blocks, so it ends. -/
theorem Sound.exists_skipEmpty (h : graph.Sound) (hn : ∀ index < n, index ∈ fresh)
    (hv : vertex.Within n) : ∃ target, graph.skipEmpty fresh vertex = .ok target := by
  fun_induction skipEmpty graph fresh vertex generalizing n with
  | case1 => exact ⟨_, rfl⟩
  | case2 => exact ⟨_, rfl⟩
  | case3 fresh index next hb hf ih =>
    have ht := h.bypass?_within hb
    refine ih (fun i hi => ?_) ht
    exact (List.mem_erase_of_ne (Nat.ne_of_lt hi)).2 (hn i (Nat.lt_trans hi hv))
  | case4 fresh index next hb hf => exact (hf (hn index hv)).elim

theorem Sound.exists_image (h : graph.Sound) (hv : vertex.Within graph.blocks.length) :
    ∃ target, graph.image vertex = .ok target := by
  obtain ⟨survivor, hs⟩ := h.exists_skipEmpty (fun _ => List.mem_range.2) hv
  exact ⟨_, image_of_skipEmpty h.defect?_eq_none h.inRange hv hs⟩

theorem Sound.exists_splice (h : graph.Sound) : ∃ result, graph.splice = .ok result := by
  have hblock : ∀ block ∈ graph.blocks.filter (!·.isEmpty), ∃ block', (do
      let edge ← block.edge.mapTargets graph.image
      return { block with edge } : Except GraphError (RawBlock α)) = .ok block' := by
    intro block hm
    obtain ⟨edge, he⟩ := RawEdge.exists_mapTargets fun target ht =>
      h.exists_image (h.inRange.1 block (List.mem_of_mem_filter hm) target ht)
    exact ⟨{ block with edge }, bind_eq_ok.2 ⟨edge, he, rfl⟩⟩
  obtain ⟨blocks, hb⟩ := exists_mapM_eq_ok hblock
  obtain ⟨start, hs⟩ := h.exists_image h.start
  exact ⟨⟨blocks, start⟩, (splice_eq_ok h.inRange).2 ⟨h.defect?_eq_none, hb, hs⟩⟩

theorem SplicedTo.wired (h : graph.SplicedTo result place)
    (hw : ∀ block ∈ graph.blocks, block.edge.Wired) :
    ∀ block ∈ result.blocks, block.edge.Wired := by
  intro block hm
  obtain ⟨source, hsource, -, hr⟩ := h.exists_block hm
  exact hr.wired (hw source hsource)

theorem exists_freezeEdge {edge : RawEdge} (hw : edge.Wired) (f : Vertex → Vertex) (index : Nat) :
    ∃ edge', freezeEdge f index edge = .ok edge' := by
  rcases edge with ⟨_ | target⟩ | ⟨_ | onTrue, onFalse⟩
  · cases hw
  · exact ⟨_, rfl⟩
  · cases hw
  · exact ⟨_, rfl⟩

theorem exists_freeze [Ranged α] (hn : ∀ block ∈ graph.blocks, block.isEmpty = false)
    (hw : ∀ block ∈ graph.blocks, block.edge.Wired) : ∃ frozen, graph.freeze = .ok frozen := by
  have hblock : ∀ item ∈ graph.sourceOrder, ∃ block, (do
      let edge ← freezeEdge (renumber graph.sourceOrder) item.2 item.1.edge
      return ⟨item.1.elements, edge⟩ : Except GraphError (BasicBlock α)) = .ok block := by
    rintro ⟨block, index⟩ hm
    have hb := hw block (List.mem_of_getElem? (mem_sourceOrder.1 hm))
    obtain ⟨edge, he⟩ := exists_freezeEdge hb (renumber graph.sourceOrder) index
    exact ⟨⟨block.elements, edge⟩, bind_eq_ok.2 ⟨edge, he, rfl⟩⟩
  obtain ⟨blocks, hb⟩ := exists_mapM_eq_ok hblock
  exact ⟨⟨blocks, _⟩, freeze_eq_ok.2 ⟨hn, hb, rfl⟩⟩

/-- The graph of a body can be spliced and frozen. -/
theorem Sound.exists_finished [Ranged α] (h : graph.Sound) :
    ∃ spliced frozen, graph.splice = .ok spliced ∧ spliced.freeze = .ok frozen := by
  obtain ⟨spliced, hs⟩ := h.exists_splice
  have hto := splicedTo_of_splice h.inRange hs
  have hw : ∀ block ∈ graph.blocks, block.edge.Wired := by
    intro block hm
    obtain ⟨index, hb⟩ := List.mem_iff_getElem?.1 hm
    exact h.wired hb
  obtain ⟨frozen, hf⟩ := exists_freeze hto.map_ne_empty (hto.wired hw)
  exact ⟨spliced, frozen, hs, hf⟩

end RawGraph

/-- A body with a graph has been drafted, its draft spliced, and the result frozen. -/
theorem Body.exists_spliced {body : Body} {graph : Graph Element}
    (h : body.graph options = .ok graph) :
    ∃ raw spliced place, RawGraph.ofBody options body.position body.stmts = .ok raw ∧
      raw.SplicedTo spliced place ∧ spliced.freeze = .ok graph := by
  obtain ⟨raw, hraw, hx⟩ := bind_eq_ok.1 h
  obtain ⟨spliced, hsplice, hfreeze⟩ := bind_eq_ok.1 hx
  have hto := RawGraph.splicedTo_of_splice (RawGraph.sound_of_ofBody hraw).inRange
    (mapError_eq_ok.1 hsplice)
  exact ⟨raw, spliced, _, hraw, hto, mapError_eq_ok.1 hfreeze⟩

theorem RawGraph.ofBody_failsWithLast (options : FlowOptions) (pos : Nat) (stmts : List Stmt) :
    FailsWithLast (Stmt.offencesIn options [] stmts) (RawGraph.ofBody options pos stmts) := by
  have hs : (Scope.outermost options).Lawful := nofun
  exact (Stmt.builds_failsWithLast (fun stmt _ => stmt.build_failsWithLast) hs pos _).map _

theorem Body.graph_failsWithLast (options : FlowOptions) (body : Body) :
    FailsWithLast (body.offences options) (body.graph options) := by
  have hfinish : ∀ raw, RawGraph.ofBody options body.position body.stmts = .ok raw →
      FailsWithLast [] (do
        let spliced ← raw.splice.mapError .graph
        spliced.freeze.mapError .graph) := by
    intro raw hr
    obtain ⟨spliced, frozen, hs, hf⟩ := (RawGraph.sound_of_ofBody hr).exists_finished
    exact ⟨frozen, by simp [hs, hf, Except.mapError, bind, Except.bind]⟩
  exact (RawGraph.ofBody_failsWithLast options body.position body.stmts).bind hfinish

theorem Body.exists_graph {body : Body} (h : body.offences options = []) :
    ∃ graph, body.graph options = .ok graph := by
  have hfails := body.graph_failsWithLast options
  rwa [h] at hfails

/-- A body has a graph if and only if nothing is wrong with it. Otherwise the error is the last
offence in source order. -/
theorem Body.graph_error_iff (options : FlowOptions) (body : Body) :
    (body.offences options = [] ↔ ∃ graph, body.graph options = .ok graph) ∧
      ∀ error, body.graph options = .error error ↔
        (body.offences options).getLast? = some error := by
  have hf := body.graph_failsWithLast options
  simp only [FailsWithLast] at hf
  cases hl : (body.offences options).getLast? with
  | none =>
    rw [hl] at hf
    obtain ⟨graph, hg⟩ := hf
    exact ⟨⟨fun _ => ⟨graph, hg⟩, fun _ => List.getLast?_eq_none_iff.1 hl⟩, by simp [hg]⟩
  | some error =>
    rw [hl] at hf
    have hne : body.offences options ≠ [] := by
      intro he
      simp [he] at hl
    exact ⟨by simp [hf, hne], by simp [hf]⟩

end FlowLint
