import FlowLint.Proofs.Flow.Census

namespace FlowLint
set_option autoImplicit true

variable {graph : Graph Element} {body : Body}

theorem Body.exists_stages (h : body.graph options = .ok graph) :
    ∃ raw spliced place place', RawGraph.ofBody options body.position body.stmts = .ok raw ∧
      raw.SplicedTo spliced place ∧ spliced.FrozenTo graph place' := by
  obtain ⟨raw, spliced, place, hraw, hspliced, hfreeze⟩ := exists_spliced h
  exact ⟨raw, spliced, place, _, hraw, hspliced, RawGraph.frozenTo_of_freeze hfreeze⟩

theorem RawGraph.FrozenTo.elements_ne_nil [Ranged α] {raw : RawGraph α} {graph : Graph α}
    (h : raw.FrozenTo graph place) : ∀ block ∈ graph.blocks, block.elements ≠ [] := by
  intro block hm
  obtain ⟨index, hlt, he⟩ := List.mem_iff_getElem.1 hm
  obtain ⟨i, source, edge, hi, -, -, hblock⟩ := h.exists_place hlt
  have hstart := h.start_isSome source (List.mem_of_getElem? hi)
  rw [List.getElem?_eq_getElem hlt, he] at hblock
  rw [Option.some.inj hblock]
  intro hnil
  rw [RawBlock.start?, show source.elements = [] from hnil] at hstart
  cases hstart

theorem Body.elements_ne_nil (h : body.graph options = .ok graph) :
    ∀ block ∈ graph.blocks, block.elements ≠ [] := by
  obtain ⟨_, _, _, _, -, -, hfrozen⟩ := exists_stages h
  exact hfrozen.elements_ne_nil

theorem Body.blocks_eq_nil_iff (h : body.graph options = .ok graph) :
    graph.blocks = [] ↔ body.evaluated = [] := by
  have hperm := elements_perm h
  constructor
  · intro hnil
    rw [Graph.elements, hnil] at hperm
    exact hperm.symm.eq_nil
  · intro hnil
    rw [hnil, List.perm_nil] at hperm
    rw [List.eq_nil_iff_forall_not_mem]
    intro block hm
    exact elements_ne_nil h block hm (List.flatMap_eq_nil_iff.1 hperm block hm)

/-- A target at the exit stays there. -/
def Vertex.KeepsExit (target target' : Vertex) : Prop :=
  target = .exit → target' = .exit

theorem RawGraph.BypassesTo.keepsExit {raw : RawGraph α} (h : raw.BypassesTo place target target') :
    target.KeepsExit target' := by
  rintro rfl
  obtain ⟨survivor, hs, rfl⟩ := h
  cases hs
  rfl

theorem Vertex.KeepsExit.map (h : Vertex.KeepsExit target target') (place : Nat → Nat) :
    target.KeepsExit (target'.map place) := by
  intro he
  rw [h he]
  rfl

theorem RawEdge.Redirects.freeze {raw : RawEdge} {edge : Edge}
    (h : raw.Redirects Vertex.KeepsExit edge.toRaw) (place : Nat → Nat) :
    raw.Redirects Vertex.KeepsExit (edge.map place).toRaw := by
  cases edge with
  | always target =>
    cases h with
    | jump ht => exact .jump (ht.map place)
  | branch onTrue onFalse =>
    cases h with
    | branch ht hf => exact .branch (ht.map place) (hf.map place)

theorem RawEdge.Redirects.mono {edge edge' : RawEdge} {stands stands' : Vertex → Vertex → Prop}
    (h : edge.Redirects stands edge') (hs : ∀ target target', stands target target' →
      stands' target target') : edge.Redirects stands' edge' := by
  cases h with
  | unwiredJump => exact .unwiredJump
  | jump ht => exact .jump (hs _ _ ht)
  | unwiredBranch hf => exact .unwiredBranch (hs _ _ hf)
  | branch ht hf => exact .branch (hs _ _ ht) (hs _ _ hf)

theorem RawGraph.exists_source {raw spliced : RawGraph Element} (hs : raw.SplicedTo spliced place)
    (hf : spliced.FrozenTo graph place') {block : BasicBlock Element} (hm : block ∈ graph.blocks) :
    ∃ source ∈ raw.blocks, source.elements = block.elements ∧
      source.edge.Redirects Vertex.KeepsExit block.edge.toRaw := by
  obtain ⟨index, hlt, hblock⟩ := List.mem_iff_getElem.1 hm
  obtain ⟨j, middle, edge, hmiddle, -, hedge, hfrozen⟩ := hf.exists_place hlt
  rw [List.getElem?_eq_getElem hlt, hblock, Option.some.injEq] at hfrozen
  obtain ⟨source, hsource, helements, hredirects⟩ :=
    hs.exists_block (List.mem_of_getElem? hmiddle)
  rw [hedge] at hredirects
  refine ⟨source, hsource, by rw [hfrozen, helements], ?_⟩
  rw [hfrozen]
  exact (hredirects.mono fun _ _ => BypassesTo.keepsExit).freeze place'

end FlowLint
