import FlowLint.Proofs.Flow.Chart
import FlowLint.Proofs.Flow.Parts
import FlowLint.Proofs.Success
import FlowLint.Proofs.Tree.Induction

namespace FlowLint
set_option autoImplicit true

theorem of_getElem?_concat {items : List α} {motive : Nat → α → Prop}
    (h : ∀ i a, items[i]? = some a → motive i a) (hb : motive items.length b) :
    ∀ i a, (items ++ [b])[i]? = some a → motive i a := by
  intro i a ha
  rcases Nat.lt_or_ge i items.length with hlt | hge
  · rw [List.getElem?_append_left hlt] at ha
    exact h i a ha
  · rw [List.getElem?_append_right hge, List.getElem?_singleton] at ha
    split at ha
    · obtain rfl : i = items.length := by omega
      cases ha
      exact hb
    · cases ha

theorem of_getElem?_modify {items : List α} {motive : Nat → α → Prop}
    (h : ∀ i a, items[i]? = some a → i ≠ k → motive i a)
    (hf : ∀ a, items[k]? = some a → motive k (f a)) :
    ∀ i a, (items.modify k f)[i]? = some a → motive i a := by
  intro i a ha
  rw [List.getElem?_modify] at ha
  obtain ⟨b, hb, rfl⟩ := Option.map_eq_some_iff.1 ha
  split
  · next he =>
    subst he
    exact hf b hb
  · next he => exact h i b hb (Ne.symm he)

/-- Whether an edge has all its targets; that of a waiting guard has not. -/
def RawEdge.Wired : RawEdge → Prop
  | .jump target => target.isSome
  | .branch onTrue _ => onTrue.isSome

theorem RawEdge.wired_jump (target : Vertex) : (jump (some target)).Wired :=
  rfl

theorem RawEdge.wired_branch (onTrue onFalse : Vertex) : (branch (some onTrue) onFalse).Wired :=
  rfl

namespace Draft

/-- What becomes of a draft while statements are added. -/
inductive Develops : Draft → Draft → Prop
  | refl {draft : Draft} : Develops draft draft
  | prepend {draft later : Draft} (element : Element) (h : Develops draft later) :
      Develops draft (later.prepend element)
  | enter {draft later : Draft} {target : Vertex} (ht : target.Within later.blocks.length)
      (h : Develops draft later) : Develops draft (later.enter target)
  | branch {draft later : Draft} {onTrue onFalse : Vertex}
      (ht : onTrue.Within later.blocks.length) (hf : onFalse.Within later.blocks.length)
      (element : Element) (h : Develops draft later) :
      Develops draft ((later.enterBlock (.branch (some onTrue) onFalse)).prepend element)
  | loop {draft later built : Draft} {edge : RawEdge} {head : Element} (hu : ¬ edge.Wired)
      (ht : ∀ target ∈ edge.targets, target.Within later.blocks.length)
      (h : Develops draft later) (hb : Develops (later.addGuard edge head) built) :
      Develops draft (built.wire later.blocks.length)

variable {draft later : Draft} {i guard : Nat}

@[simp]
theorem length_prepend (element : Element) :
    (draft.prepend element).blocks.length = draft.blocks.length := by
  simp [prepend]

@[simp]
theorem length_enterBlock (edge : RawEdge) :
    (draft.enterBlock edge).blocks.length = draft.blocks.length + 1 := by
  simp [enterBlock]

@[simp]
theorem length_enter (target : Vertex) :
    (draft.enter target).blocks.length = draft.blocks.length + 1 :=
  length_enterBlock _

@[simp]
theorem length_addGuard (edge : RawEdge) (head : Element) :
    (draft.addGuard edge head).blocks.length = draft.blocks.length + 1 := by
  simp [addGuard]

@[simp]
theorem length_wire (guard : Nat) : (draft.wire guard).blocks.length = draft.blocks.length := by
  simp [wire]

@[simp]
theorem length_addTest (onTrue onFalse : Vertex) (test : Element) :
    (draft.addTest onTrue onFalse test).blocks.length = draft.blocks.length + 1 := by
  simp [addTest]

theorem Step.length_le_apply (step : Step) (draft : Draft) :
    draft.blocks.length ≤ (step.apply draft).blocks.length := by
  cases step <;> simp [Step.apply]

@[simp]
theorem current_prepend (element : Element) : (draft.prepend element).current = draft.current :=
  rfl

@[simp]
theorem current_enterBlock (edge : RawEdge) :
    (draft.enterBlock edge).current = draft.blocks.length :=
  rfl

@[simp]
theorem current_enter (target : Vertex) : (draft.enter target).current = draft.blocks.length :=
  rfl

@[simp]
theorem current_addGuard (edge : RawEdge) (head : Element) :
    (draft.addGuard edge head).current = draft.current :=
  rfl

@[simp]
theorem current_wire (guard : Nat) : (draft.wire guard).current = draft.current :=
  rfl

@[simp]
theorem here_prepend (element : Element) : (draft.prepend element).here = draft.here :=
  rfl

@[simp]
theorem here_enterBlock (edge : RawEdge) :
    (draft.enterBlock edge).here = .block draft.blocks.length :=
  rfl

@[simp]
theorem here_addGuard (edge : RawEdge) (head : Element) :
    (draft.addGuard edge head).here = draft.here :=
  rfl

@[simp]
theorem here_wire (guard : Nat) : (draft.wire guard).here = draft.here :=
  rfl

theorem getElem?_prepend_of_ne (element : Element) (h : i ≠ draft.current) :
    (draft.prepend element).blocks[i]? = draft.blocks[i]? := by
  simp [prepend, h.symm]

theorem getElem?_enterBlock_of_lt (edge : RawEdge) (h : i < draft.blocks.length) :
    (draft.enterBlock edge).blocks[i]? = draft.blocks[i]? := by
  simp [enterBlock, List.getElem?_append_left h]

theorem getElem?_addGuard_of_lt (edge : RawEdge) (head : Element) (h : i < draft.blocks.length) :
    (draft.addGuard edge head).blocks[i]? = draft.blocks[i]? := by
  simp [addGuard, List.getElem?_append_left h]

theorem getElem?_addTest_of_lt (onTrue onFalse : Vertex) (test : Element)
    (h : i < draft.blocks.length) :
    (draft.addTest onTrue onFalse test).blocks[i]? = draft.blocks[i]? := by
  simp [addTest, List.getElem?_append_left h]

theorem getElem?_wire_of_ne (h : i ≠ guard) : (draft.wire guard).blocks[i]? = draft.blocks[i]? := by
  simp [wire, h.symm]

theorem Develops.trans (h : draft.Develops later) (h' : later.Develops last) :
    draft.Develops last := by
  induction h' with
  | refl => exact h
  | prepend element _ ih => exact .prepend element (ih h)
  | enter ht _ ih => exact .enter ht (ih h)
  | branch ht hf element _ ih => exact .branch ht hf element (ih h)
  | loop hu ht _ hb ih _ => exact .loop hu ht (ih h) hb

/-- A development leaves the blocks alone that were there, except the current one. -/
structure Keeps (draft later : Draft) : Prop where
  length_le : draft.blocks.length ≤ later.blocks.length
  block : ∀ i < draft.blocks.length, i ≠ draft.current → later.blocks[i]? = draft.blocks[i]?
  current : later.current = draft.current ∨ draft.blocks.length ≤ later.current

theorem Keeps.refl (draft : Draft) : draft.Keeps draft :=
  ⟨Nat.le_refl _, fun _ _ _ => rfl, .inl rfl⟩

theorem Keeps.current_ne (h : draft.Keeps later) (hi : i < draft.blocks.length)
    (hc : i ≠ draft.current) : i ≠ later.current := by
  have := h.current
  omega

theorem Keeps.prepend (h : draft.Keeps later) (element : Element) :
    draft.Keeps (later.prepend element) := by
  refine ⟨by simpa using h.length_le, fun i hi hc => ?_, by simpa using h.current⟩
  rw [getElem?_prepend_of_ne _ (h.current_ne hi hc), h.block i hi hc]

theorem Keeps.enterBlock (h : draft.Keeps later) (edge : RawEdge) :
    draft.Keeps (later.enterBlock edge) := by
  have hle := h.length_le
  refine ⟨by simpa using Nat.le_succ_of_le hle, fun i hi hc => ?_, by simp [hle]⟩
  rw [getElem?_enterBlock_of_lt _ (Nat.lt_of_lt_of_le hi hle), h.block i hi hc]

theorem Keeps.addGuard (draft : Draft) (edge : RawEdge) (head : Element) :
    draft.Keeps (draft.addGuard edge head) := by
  refine ⟨by simp, fun i hi _ => ?_, .inl rfl⟩
  rw [getElem?_addGuard_of_lt _ _ hi]

theorem Keeps.trans (h : draft.Keeps later) (h' : later.Keeps last) : draft.Keeps last := by
  have hle := h.length_le
  refine ⟨Nat.le_trans hle h'.length_le, fun i hi hc => ?_, ?_⟩
  · rw [h'.block i (Nat.lt_of_lt_of_le hi hle) (h.current_ne hi hc), h.block i hi hc]
  · have := h.current
    have := h'.current
    omega

/-- Wiring a guard that was not there before is no change. -/
theorem Keeps.wire (h : draft.Keeps later) (hg : draft.blocks.length ≤ guard) :
    draft.Keeps (later.wire guard) := by
  refine ⟨by simpa using h.length_le, fun i hi hc => ?_, h.current⟩
  rw [getElem?_wire_of_ne (by omega), h.block i hi hc]

theorem Develops.keeps (h : draft.Develops later) : draft.Keeps later := by
  induction h with
  | refl => exact .refl _
  | prepend element _ ih => exact ih.prepend element
  | enter _ _ ih => exact ih.enterBlock _
  | branch _ _ element _ ih => exact (ih.enterBlock _).prepend element
  | loop _ _ _ _ ih ih' => exact (ih.trans ((Keeps.addGuard ..).trans ih')).wire ih.length_le

/-- The current block is there and has its targets. -/
def Ready (draft : Draft) : Prop :=
  ∃ block, draft.blocks[draft.current]? = some block ∧ block.edge.Wired

theorem Ready.lt_length (h : draft.Ready) : draft.current < draft.blocks.length := by
  obtain ⟨block, hb, -⟩ := h
  exact (List.getElem?_eq_some_iff.1 hb).1

theorem Ready.prepend (h : draft.Ready) (element : Element) : (draft.prepend element).Ready := by
  obtain ⟨block, hb, hw⟩ := h
  exact ⟨block.prepend element, by simp [Draft.prepend, hb], hw⟩

theorem ready_enterBlock (draft : Draft) (hw : edge.Wired) : (draft.enterBlock edge).Ready :=
  ⟨.ofEdge edge, by simp [enterBlock], hw⟩

theorem ready_enter (draft : Draft) (target : Vertex) : (draft.enter target).Ready :=
  ready_enterBlock _ (RawEdge.wired_jump target)

theorem Ready.addGuard (h : draft.Ready) (edge : RawEdge) (head : Element) :
    (draft.addGuard edge head).Ready := by
  obtain ⟨block, hb, hw⟩ := h
  refine ⟨block, ?_, hw⟩
  rw [current_addGuard, getElem?_addGuard_of_lt _ _ (List.getElem?_eq_some_iff.1 hb).1, hb]

end Draft

theorem RawBlock.enterLoop_of_wired {block : RawBlock α} (hw : block.edge.Wired) (body : Vertex) :
    block.enterLoop body = block := by
  obtain ⟨elements, edge⟩ := block
  rcases edge with ⟨_ | _⟩ | ⟨_ | _, _⟩
  · cases hw
  · rfl
  · cases hw
  · rfl

theorem RawBlock.wired_enterLoop (block : RawBlock α) (body : Vertex) :
    (block.enterLoop body).edge.Wired := by
  obtain ⟨elements, edge⟩ := block
  rcases edge with ⟨_ | _⟩ | ⟨_ | _, _⟩ <;> rfl

namespace Draft

variable {draft later : Draft}

theorem Ready.wire (h : draft.Ready) (guard : Nat) : (draft.wire guard).Ready := by
  obtain ⟨block, hb, hw⟩ := h
  refine ⟨block, ?_, hw⟩
  simp only [Draft.wire, List.getElem?_modify, hb, Option.map_eq_map, Option.map_some]
  split
  · rw [RawBlock.enterLoop_of_wired hw]
  · rfl

theorem Develops.ready (h : draft.Develops later) (hr : draft.Ready) : later.Ready := by
  induction h with
  | refl => exact hr
  | prepend element _ ih => exact (ih hr).prepend element
  | enter _ _ _ => exact ready_enter _ _
  | branch _ _ element _ _ => exact (ready_enterBlock _ (RawEdge.wired_branch _ _)).prepend element
  | loop _ _ _ _ ih ih' => exact (ih' ((ih hr).addGuard _ _)).wire _

end Draft

/-- A block of a sound draft: its targets are there, it leads back if it is empty, and only a
waiting guard lacks a target. -/
structure RawBlock.Tidy (size index : Nat) (waiting : Prop) (block : RawBlock α) : Prop where
  within : ∀ target ∈ block.edge.targets, target.Within size
  empty : block.elements = [] → ∃ target, block.edge = .jump (some target) ∧ target.Within index
  wired : block.edge.Wired ∨ waiting

namespace RawBlock

variable {α : Type} {block : RawBlock α} {edge : RawEdge} {body target : Vertex} {size index : Nat}

theorem Tidy.mono (h : block.Tidy size index p) (hs : size ≤ size') (hp : p → q) :
    block.Tidy size' index q :=
  ⟨fun target ht => (h.within target ht).mono hs, h.empty, h.wired.imp_right hp⟩

theorem Tidy.prepend (h : block.Tidy size index p) (element : α) :
    (block.prepend element).Tidy size index p :=
  ⟨h.within, nofun, h.wired⟩

theorem tidy_jump (ht : target.Within index) (hi : index ≤ size) :
    (ofEdge (.jump (some target)) : RawBlock α).Tidy size index p :=
  ⟨by simpa [ofEdge, RawEdge.targets, RawEdge.ways] using ht.mono hi,
    fun _ => ⟨target, rfl, ht⟩, .inl rfl⟩

theorem tidy_singleton (ht : ∀ target ∈ edge.targets, target.Within size)
    (hw : edge.Wired ∨ p) (head : α) : (⟨[head], edge⟩ : RawBlock α).Tidy size index p :=
  ⟨ht, nofun, hw⟩

theorem elements_enterLoop (block : RawBlock α) (body : Vertex) :
    (block.enterLoop body).elements = block.elements := by
  obtain ⟨elements, edge⟩ := block
  rcases edge with ⟨_ | _⟩ | ⟨_ | _, _⟩ <;> rfl

theorem mem_targets_enterLoop (h : target ∈ (block.enterLoop body).edge.targets) :
    target = body ∨ target ∈ block.edge.targets := by
  obtain ⟨elements, edge⟩ := block
  rcases edge with ⟨_ | _⟩ | ⟨_ | _, _⟩ <;>
    simp_all [enterLoop, RawEdge.targets, RawEdge.ways]

theorem Tidy.enterLoop (h : block.Tidy size index p) (hb : body.Within size) :
    (block.enterLoop body).Tidy size index q := by
  obtain ⟨elements, edge⟩ := block
  refine ⟨?_, ?_, .inl (wired_enterLoop ..)⟩
  · intro target ht
    rcases mem_targets_enterLoop ht with rfl | ht
    · exact hb
    · exact h.within target ht
  · intro he
    rw [elements_enterLoop] at he
    obtain ⟨target, rfl, ht⟩ := h.empty he
    exact ⟨target, rfl, ht⟩

end RawBlock

/-- The current block is there, and every block is tidy; some guards may wait for their bodies. -/
structure Draft.Sound (waiting : List Nat) (draft : Draft) : Prop where
  here : draft.here.Within draft.blocks.length
  block : ∀ (index : Nat) (block : RawBlock Element), draft.blocks[index]? = some block →
    block.Tidy draft.blocks.length index (index ∈ waiting)

namespace Draft

variable {draft later : Draft} {edge : RawEdge} {guard : Nat}

theorem Sound.prepend (h : draft.Sound waiting) (element : Element) :
    (draft.prepend element).Sound waiting := by
  refine ⟨by simpa using h.here, ?_⟩
  rw [length_prepend]
  exact of_getElem?_modify (fun index block hb _ => h.block index block hb) fun block hb =>
    (h.block _ block hb).prepend element

theorem Sound.enter (h : draft.Sound waiting) (ht : target.Within draft.blocks.length) :
    (draft.enter target).Sound waiting := by
  refine ⟨by simp [Draft.here, Vertex.Within], ?_⟩
  rw [length_enter]
  refine of_getElem?_concat (fun index block hb => ?_) (RawBlock.tidy_jump ht (by omega))
  exact (h.block index block hb).mono (by omega) id

theorem Sound.branch (h : draft.Sound waiting) (ht : onTrue.Within draft.blocks.length)
    (hf : onFalse.Within draft.blocks.length) (element : Element) :
    ((draft.enterBlock (.branch (some onTrue) onFalse)).prepend element).Sound waiting := by
  rw [enterBlock_prepend]
  refine ⟨by simp [Draft.here, Vertex.Within], ?_⟩
  rw [List.length_append, List.length_singleton]
  refine of_getElem?_concat (fun index block hb => ?_) ?_
  · exact (h.block index block hb).mono (by omega) id
  · refine RawBlock.tidy_singleton (fun target hm => ?_) (.inl (RawEdge.wired_branch _ _)) element
    rcases List.mem_cons.1 hm with rfl | hm
    · exact ht.mono (by omega)
    · exact List.mem_singleton.1 hm ▸ hf.mono (by omega)

theorem Sound.addGuard (h : draft.Sound waiting)
    (ht : ∀ target ∈ edge.targets, target.Within draft.blocks.length) (head : Element) :
    (draft.addGuard edge head).Sound (draft.blocks.length :: waiting) := by
  refine ⟨by simpa using h.here.mono (Nat.le_succ _), ?_⟩
  rw [length_addGuard]
  refine of_getElem?_concat (fun index block hb => ?_) ?_
  · exact (h.block index block hb).mono (by omega) (List.mem_cons_of_mem _)
  · exact RawBlock.tidy_singleton (fun target hm => (ht target hm).mono (by omega))
      (.inr (List.mem_cons_self ..)) head

theorem Sound.wire (h : draft.Sound (guard :: waiting)) : (draft.wire guard).Sound waiting := by
  refine ⟨by simpa using h.here, ?_⟩
  rw [length_wire]
  refine of_getElem?_modify (fun index block hb hne => ?_) fun block hb => ?_
  · exact (h.block index block hb).mono (Nat.le_refl _) fun hm =>
      (List.mem_cons.1 hm).resolve_left hne
  · exact (h.block guard block hb).enterLoop h.here

theorem Develops.sound (h : draft.Develops later) (hs : draft.Sound waiting) :
    later.Sound waiting := by
  induction h generalizing waiting with
  | refl => exact hs
  | prepend element _ ih => exact (ih hs).prepend element
  | enter ht _ ih => exact (ih hs).enter ht
  | branch ht hf element _ ih => exact (ih hs).branch ht hf element
  | loop _ ht _ _ ih ih' => exact (ih' ((ih hs).addGuard ht _)).wire

end Draft

end FlowLint
