import FlowLint.Proofs.Flow.Development

/-!
How paths grow with a draft. The edges of its blocks stay as they are while blocks are added, so the
paths stay too. What is added for a part of a body is reached from one vertex, from which a path
leads on to what follows this part.
-/
namespace FlowLint
set_option autoImplicit true

theorem RawBlock.targets_enterLoop (block : RawBlock α) (body : Vertex) :
    block.edge.targets ⊆ (block.enterLoop body).edge.targets := by
  obtain ⟨elements, edge⟩ := block
  rcases edge with ⟨_ | _⟩ | ⟨_ | _, _⟩ <;> simp [enterLoop, RawEdge.targets, RawEdge.ways]

namespace Draft

variable {draft middle later : Draft} {edge : RawEdge} {source target target' root root' : Vertex}
  {index guard : Nat}

def edge? (draft : Draft) (index : Nat) : Option RawEdge :=
  draft.blocks[index]?.map (·.edge)

theorem lt_length_of_edge? (h : draft.edge? index = some edge) : index < draft.blocks.length := by
  obtain ⟨block, hb, -⟩ := Option.map_eq_some_iff.1 h
  exact (List.getElem?_eq_some_iff.1 hb).1

@[simp]
theorem edge?_prepend (element : Element) (index : Nat) :
    (draft.prepend element).edge? index = draft.edge? index := by
  simp only [edge?, prepend, List.getElem?_modify]
  split
  · cases draft.blocks[index]? <;> rfl
  · simp

theorem edge?_enterBlock_of_lt (edge : RawEdge) (h : index < draft.blocks.length) :
    (draft.enterBlock edge).edge? index = draft.edge? index := by
  rw [edge?, getElem?_enterBlock_of_lt _ h, edge?]

theorem edge?_enterBlock (draft : Draft) (edge : RawEdge) :
    (draft.enterBlock edge).edge? draft.blocks.length = some edge := by
  simp [edge?, enterBlock, RawBlock.ofEdge]

theorem edge?_addGuard_of_lt (edge : RawEdge) (head : Element) (h : index < draft.blocks.length) :
    (draft.addGuard edge head).edge? index = draft.edge? index := by
  rw [edge?, getElem?_addGuard_of_lt _ _ h, edge?]

theorem edge?_addGuard (draft : Draft) (edge : RawEdge) (head : Element) :
    (draft.addGuard edge head).edge? draft.blocks.length = some edge := by
  simp [edge?, addGuard]

theorem edge?_wire_of_ne (h : index ≠ guard) :
    (draft.wire guard).edge? index = draft.edge? index := by
  rw [edge?, getElem?_wire_of_ne h, edge?]

theorem edge?_wire (h : draft.edge? guard = some (.branch none target)) :
    (draft.wire guard).edge? guard = some (.branch (some draft.here) target) := by
  obtain ⟨⟨elements, edge⟩, hb, rfl⟩ := Option.map_eq_some_iff.1 h
  simp [edge?, wire, hb, RawBlock.enterLoop]

def Reaches (draft : Draft) : Vertex → Vertex → Prop :=
  Relation.ReflTransGen draft.toRawGraph.chart.Leads

theorem leads_iff : draft.toRawGraph.chart.Leads source target ↔
    ∃ index edge, source = .block index ∧ draft.edge? index = some edge ∧
      target ∈ edge.targets := by
  simp only [Chart.Leads, RawEdge.mem_targets]
  cases source with
  | exit => simp [RawGraph.chart]
  | block index =>
    cases hb : draft.blocks[index]? with
    | none => simp [RawGraph.chart, toRawGraph, edge?, hb]
    | some block => simp [RawGraph.chart, toRawGraph, edge?, hb]

theorem reaches_of_mem_targets (h : draft.edge? index = some edge) (ht : target ∈ edge.targets) :
    draft.Reaches (.block index) target :=
  .single (leads_iff.2 ⟨index, edge, rfl, h, ht⟩)

theorem Reaches.mono (h : draft.Reaches source target)
    (he : ∀ index edge, draft.edge? index = some edge →
      ∃ edge', later.edge? index = some edge' ∧ edge.targets ⊆ edge'.targets) :
    later.Reaches source target := by
  refine Relation.ReflTransGen.mono (fun before next hl => ?_) _ _ h
  obtain ⟨index, edge, rfl, hedge, ht⟩ := leads_iff.1 hl
  obtain ⟨edge', hedge', hs⟩ := he index edge hedge
  exact leads_iff.2 ⟨index, edge', rfl, hedge', hs ht⟩

theorem Reaches.prepend (h : draft.Reaches source target) (element : Element) :
    (draft.prepend element).Reaches source target :=
  h.mono fun index edge he => ⟨edge, (edge?_prepend element index).trans he, List.Subset.refl _⟩

theorem Reaches.wire (h : draft.Reaches source target) (guard : Nat) :
    (draft.wire guard).Reaches source target := by
  refine h.mono fun index edge he => ?_
  obtain ⟨block, hb, rfl⟩ := Option.map_eq_some_iff.1 he
  simp only [edge?, Draft.wire, List.getElem?_modify, hb]
  split
  · exact ⟨_, rfl, block.targets_enterLoop _⟩
  · exact ⟨_, rfl, List.Subset.refl _⟩

/-- Blocks have been added to a draft. They are all reached from `root`, and from there a path leads
on to `target`. -/
structure Flows (draft later : Draft) (target root : Vertex) : Prop where
  length_le : draft.blocks.length ≤ later.blocks.length
  edge : ∀ index < draft.blocks.length, later.edge? index = draft.edge? index
  reached : ∀ index < later.blocks.length, draft.blocks.length ≤ index →
    later.Reaches root (.block index)
  onward : later.Reaches root target

namespace Flows

theorem refl (draft : Draft) (vertex : Vertex) : draft.Flows draft vertex vertex :=
  ⟨Nat.le_refl _, fun _ _ => rfl, fun _ hlt hle => absurd hlt (Nat.not_lt.2 hle), .refl⟩

theorem reaches (h : draft.Flows later target root) (hr : draft.Reaches source target') :
    later.Reaches source target' :=
  hr.mono fun index edge he =>
    ⟨edge, (h.edge index (lt_length_of_edge? he)).trans he, List.Subset.refl _⟩

theorem of_reaches (h : draft.Flows later target root) (hr : later.Reaches root' root) :
    draft.Flows later target root' :=
  ⟨h.length_le, h.edge, fun index hlt hle => hr.trans (h.reached index hlt hle),
    hr.trans h.onward⟩

theorem join (h : draft.Flows middle target root) (h' : middle.Flows later target' root')
    (hr : later.Reaches root' root) : draft.Flows later target root' := by
  refine ⟨Nat.le_trans h.length_le h'.length_le, fun index hlt => ?_, fun index hlt hle => ?_,
    hr.trans (h'.reaches h.onward)⟩
  · rw [h'.edge index (Nat.lt_of_lt_of_le hlt h.length_le), h.edge index hlt]
  · rcases Nat.lt_or_ge index middle.blocks.length with hmiddle | hmiddle
    · exact hr.trans (h'.reaches (h.reached index hmiddle hle))
    · exact h'.reached index hlt hmiddle

theorem trans (h : draft.Flows middle target root) (h' : middle.Flows later root root') :
    draft.Flows later target root' :=
  h.join h' h'.onward

theorem prepend (h : draft.Flows later target root) (element : Element) :
    draft.Flows (later.prepend element) target root := by
  refine ⟨by simpa using h.length_le, fun index hlt => ?_, fun index hlt hle => ?_,
    h.onward.prepend element⟩
  · rw [edge?_prepend, h.edge index hlt]
  · rw [length_prepend] at hlt
    exact (h.reached index hlt hle).prepend element

theorem enterBlock (draft : Draft) (ht : target ∈ edge.targets) :
    draft.Flows (draft.enterBlock edge) target (draft.enterBlock edge).here := by
  refine ⟨by simp, fun index hlt => edge?_enterBlock_of_lt edge hlt, fun index hlt hle => ?_,
    reaches_of_mem_targets (edge?_enterBlock draft edge) ht⟩
  rw [length_enterBlock] at hlt
  obtain rfl := Nat.le_antisymm hle (Nat.lt_succ_iff.1 hlt)
  exact .refl

theorem enter (draft : Draft) (target : Vertex) :
    draft.Flows (draft.enter target) target (draft.enter target).here :=
  enterBlock draft (by simp [RawEdge.targets, RawEdge.ways])

theorem addGuard (draft : Draft) (head : Element) (ht : target ∈ edge.targets) :
    draft.Flows (draft.addGuard edge head) target draft.next := by
  refine ⟨by simp, fun index hlt => edge?_addGuard_of_lt edge head hlt, fun index hlt hle => ?_,
    reaches_of_mem_targets (edge?_addGuard draft edge head) ht⟩
  rw [length_addGuard] at hlt
  obtain rfl := Nat.le_antisymm hle (Nat.lt_succ_iff.1 hlt)
  exact .refl

theorem addUpdate (draft : Draft) (guard : Vertex) (update : Option Element) :
    draft.Flows (draft.addUpdate guard update).1 guard (draft.addUpdate guard update).2 := by
  cases update with
  | none => exact .refl draft guard
  | some update => exact (enter draft guard).prepend update

/-- Wiring a guard that was not there before changes no edge of the former draft. -/
theorem wire (h : draft.Flows later target root) (hg : draft.blocks.length ≤ guard) :
    draft.Flows (later.wire guard) target root := by
  refine ⟨by simpa using h.length_le, fun index hlt => ?_, fun index hlt hle => ?_,
    h.onward.wire guard⟩
  · rw [edge?_wire_of_ne (Nat.ne_of_lt (Nat.lt_of_lt_of_le hlt hg)), h.edge index hlt]
  · rw [length_wire] at hlt
    exact (h.reached index hlt hle).wire guard

end Flows

end Draft

end FlowLint
