import FlowLint.Proofs.Flow.Demand
import FlowLint.Proofs.Flow.Drafting

/-!
Whenever a statement is visited, nothing leads to the current block of the builder. So a block that
has been a target of a jump never takes in elements again; all that may still happen to it is that
it is pointed at the body of its loop.
-/
namespace FlowLint
set_option autoImplicit true

theorem exists_of_mem_modify {items : List α} (h : b ∈ items.modify k f) :
    ∃ a ∈ items, b = a ∨ b = f a := by
  obtain ⟨i, hi⟩ := List.mem_iff_getElem?.1 h
  rw [List.getElem?_modify] at hi
  obtain ⟨a, ha, rfl⟩ := Option.map_eq_some_iff.1 hi
  refine ⟨a, List.mem_of_getElem? ha, ?_⟩
  split
  · exact .inr rfl
  · exact .inl rfl

def Breakable.targets (breakable : Breakable) : List Vertex :=
  breakable.breakTarget :: breakable.continueTarget.toList

namespace Builder

variable {builder later : Builder} {step : Step} {steps : List Step}

/-- The targets of all edges, of jumps out of the statements around, and of thrown values. -/
def targets (builder : Builder) : List Vertex :=
  builder.draft.blocks.flatMap (·.edge.targets) ++ builder.breakables.flatMap Breakable.targets ++
    builder.throwTargets

structure InRange (builder : Builder) : Prop where
  here : builder.draft.here.Within builder.draft.blocks.length
  targets : ∀ target ∈ builder.targets, target.Within builder.draft.blocks.length

/-- All targets are there, and the current block is none of them. -/
structure Sealed (builder : Builder) : Prop extends InRange builder where
  fresh : builder.draft.here ∉ builder.targets

/-- A block is the same for as long as the steps are taken. -/
def Stays (index : Nat) (block : RawBlock Element) (builder : Builder) (steps : List Step) : Prop :=
  ∀ taken, taken <+: steps → (builder.run taken).draft.blocks[index]? = some block

/-- A block stays the same but for one thing: it may be pointed at the body of its loop, once and
only if it still waits for that. -/
def Rests (index : Nat) (block : RawBlock Element) (builder : Builder) (steps : List Step) : Prop :=
  builder.Stays index block steps ∨
    ∃ first second, steps = first ++ .change (.wire index) :: second ∧ ¬ block.edge.Wired ∧
      builder.Stays index block first ∧
      (builder.run (first ++ [.change (.wire index)])).Stays index
        (block.enterLoop (builder.run first).draft.here) second

theorem Stays.nil (h : builder.draft.blocks[index]? = some block) :
    builder.Stays index block [] := by
  intro taken ht
  rw [List.prefix_nil.1 ht]
  exact h

theorem Stays.cons (h : builder.draft.blocks[index]? = some block)
    (hs : (step.apply builder).Stays index block steps) :
    builder.Stays index block (step :: steps) := by
  intro taken ht
  rcases List.prefix_cons_iff.1 ht with rfl | ⟨taken, rfl, ht⟩
  · exact h
  · exact hs taken ((List.prefix_cons_inj step).1 ht)

/-- A step leaves every block alone but the current one, and but for the guard that it wires. -/
theorem Step.block_apply (step : Step) (hb : builder.draft.blocks[index]? = some block)
    (hc : index ≠ builder.draft.current) :
    index ≠ (step.apply builder).draft.current ∧
      ((step.apply builder).draft.blocks[index]? = some block ∨
        step = .change (.wire index) ∧ ¬ block.edge.Wired ∧
          (step.apply builder).draft.blocks[index]? =
            some (block.enterLoop builder.draft.here)) := by
  have hi := (List.getElem?_eq_some_iff.1 hb).1
  cases step with
  | visit | pushBreakable | popBreakable | pushThrowTarget | popThrowTarget => exact ⟨hc, .inl hb⟩
  | change step =>
    cases step with
    | prepend element => exact ⟨hc, .inl ((Draft.getElem?_prepend_of_ne element hc).trans hb)⟩
    | enterBlock edge =>
      exact ⟨Nat.ne_of_lt hi, .inl ((Draft.getElem?_enterBlock_of_lt edge hi).trans hb)⟩
    | addGuard edge head =>
      exact ⟨hc, .inl ((Draft.getElem?_addGuard_of_lt edge head hi).trans hb)⟩
    | addTest onTrue onFalse test =>
      exact ⟨hc, .inl ((Draft.getElem?_addTest_of_lt onTrue onFalse test hi).trans hb)⟩
    | wire guard =>
      refine ⟨hc, ?_⟩
      by_cases hg : index = guard
      · subst hg
        have hwire : (builder.draft.wire index).blocks[index]? =
            some (block.enterLoop builder.draft.here) := by
          simp [Draft.wire, hb]
        by_cases hw : block.edge.Wired
        · exact .inl (hwire.trans (congrArg some (RawBlock.enterLoop_of_wired hw _)))
        · exact .inr ⟨rfl, hw, hwire⟩
      · exact .inl ((Draft.getElem?_wire_of_ne hg).trans hb)

theorem stays_of_wired (hb : builder.draft.blocks[index]? = some block)
    (hc : index ≠ builder.draft.current) (hw : block.edge.Wired) (steps : List Step) :
    builder.Stays index block steps := by
  induction steps generalizing builder with
  | nil => exact .nil hb
  | cons step steps ih =>
    obtain ⟨hc', hb' | ⟨-, hn, -⟩⟩ := step.block_apply hb hc
    · exact .cons hb (ih hb' hc')
    · exact absurd hw hn

theorem rests (hb : builder.draft.blocks[index]? = some block)
    (hc : index ≠ builder.draft.current) (steps : List Step) :
    builder.Rests index block steps := by
  induction steps generalizing builder with
  | nil => exact .inl (.nil hb)
  | cons step steps ih =>
    obtain ⟨hc', hb' | ⟨rfl, hn, hb'⟩⟩ := step.block_apply hb hc
    · rcases ih hb' hc' with hs | ⟨first, second, rfl, hn, hfirst, hsecond⟩
      · exact .inl (.cons hb hs)
      · exact .inr ⟨step :: first, second, rfl, hn, .cons hb hfirst, hsecond⟩
    · exact .inr ⟨[], steps, rfl, hn, .nil hb,
        stays_of_wired hb' hc' (RawBlock.wired_enterLoop ..) steps⟩

theorem Stays.elements (h : builder.Stays index block steps) (ht : taken <+: steps) :
    ∃ later, (builder.run taken).draft.blocks[index]? = some later ∧
      later.elements = block.elements :=
  ⟨block, h taken ht, rfl⟩

/-- A block at rest takes in no elements. -/
theorem Rests.elements (h : builder.Rests index block steps) (ht : taken <+: steps) :
    ∃ later, (builder.run taken).draft.blocks[index]? = some later ∧
      later.elements = block.elements := by
  obtain h | ⟨first, second, rfl, -, hfirst, hsecond⟩ := h
  · exact h.elements ht
  · rcases List.prefix_or_prefix_of_prefix ht (List.prefix_append first _) with hf | ⟨rest, rfl⟩
    · exact hfirst.elements hf
    · rcases List.prefix_cons_iff.1 ((List.prefix_append_right_inj first).1 ht) with
        rfl | ⟨rest, rfl, hr⟩
      · rw [List.append_nil]
        exact hfirst.elements (List.prefix_refl _)
      · obtain ⟨later, hl, he⟩ := hsecond.elements hr
        rw [← run_append, List.append_assoc] at hl
        exact ⟨later, hl, he.trans (RawBlock.elements_enterLoop ..)⟩

def Step.targets : Step → Builder → List Vertex
  | change (.enterBlock edge), _ | change (.addGuard edge _), _ => edge.targets
  | change (.addTest onTrue onFalse _), _ => [onTrue, onFalse]
  | change (.wire _), builder => [builder.draft.here]
  | pushBreakable breakable, _ => breakable.targets
  | pushThrowTarget target, _ => [target]
  | visit, _ | change (.prepend _), _ | popBreakable, _ | popThrowTarget, _ => []

theorem mem_targets : target ∈ builder.targets ↔
    (∃ block ∈ builder.draft.blocks, target ∈ block.edge.targets) ∨
      (∃ breakable ∈ builder.breakables, target ∈ breakable.targets) ∨
      target ∈ builder.throwTargets := by
  simp [targets]

theorem Step.mem_targets_apply (step : Step) (h : target ∈ (step.apply builder).targets) :
    target ∈ builder.targets ∨ target ∈ step.targets builder := by
  rw [mem_targets] at h ⊢
  cases step with
  | visit => exact .inl h
  | change step =>
    obtain ⟨block, hm, ht⟩ | h := h
    · cases step with
      | prepend element =>
        obtain ⟨block', hm', rfl | rfl⟩ := exists_of_mem_modify hm
        · exact .inl (.inl ⟨block, hm', ht⟩)
        · exact .inl (.inl ⟨block', hm', ht⟩)
      | enterBlock | addGuard | addTest =>
        rcases List.mem_append.1 hm with hm | hm
        · exact .inl (.inl ⟨block, hm, ht⟩)
        · obtain rfl := List.mem_singleton.1 hm
          exact .inr ht
      | wire guard =>
        obtain ⟨block', hm', rfl | rfl⟩ := exists_of_mem_modify hm
        · exact .inl (.inl ⟨block, hm', ht⟩)
        · rcases RawBlock.mem_targets_enterLoop ht with rfl | ht
          · exact .inr (List.mem_singleton_self _)
          · exact .inl (.inl ⟨block', hm', ht⟩)
    · exact .inl (.inr h)
  | pushBreakable breakable =>
    obtain h | ⟨other, hm, ht⟩ | h := h
    · exact .inl (.inl h)
    · rcases List.mem_cons.1 hm with rfl | hm
      · exact .inr ht
      · exact .inl (.inr (.inl ⟨other, hm, ht⟩))
    · exact .inl (.inr (.inr h))
  | popBreakable =>
    obtain h | ⟨other, hm, ht⟩ | h := h
    · exact .inl (.inl h)
    · exact .inl (.inr (.inl ⟨other, List.mem_of_mem_tail hm, ht⟩))
    · exact .inl (.inr (.inr h))
  | pushThrowTarget other =>
    obtain h | h | h := h
    · exact .inl (.inl h)
    · exact .inl (.inr (.inl h))
    · rcases List.mem_cons.1 h with rfl | h
      · exact .inr (List.mem_singleton_self _)
      · exact .inl (.inr (.inr h))
  | popThrowTarget =>
    obtain h | h | h := h
    · exact .inl (.inl h)
    · exact .inl (.inr (.inl h))
    · exact .inl (.inr (.inr (List.mem_of_mem_tail h)))

/-- A step keeps the targets in range if those that it makes are. -/
theorem InRange.apply (h : builder.InRange) (step : Step)
    (ht : ∀ target ∈ step.targets builder, target.Within builder.draft.blocks.length) :
    (step.apply builder).InRange := by
  have hle := step.length_le_apply builder
  constructor
  · cases step with
    | change step =>
      cases step with
      | enterBlock edge => simp [Step.apply, Draft.Step.apply]
      | prepend | addGuard | addTest | wire => exact h.here.mono hle
    | visit | pushBreakable | popBreakable | pushThrowTarget | popThrowTarget =>
      exact h.here.mono hle
  · intro target hm
    rcases step.mem_targets_apply hm with hm | hm
    · exact (h.targets target hm).mono hle
    · exact (ht target hm).mono hle

theorem InRange.throwTarget (h : builder.InRange) :
    builder.throwTarget.Within builder.draft.blocks.length := by
  rw [Builder.throwTarget]
  cases ht : builder.throwTargets with
  | nil => exact Vertex.within_exit
  | cons target =>
    refine h.targets target (mem_targets.2 (.inr (.inr ?_)))
    rw [ht]
    exact List.mem_cons_self ..

theorem InRange.scope (h : builder.InRange) :
    builder.scope.Within builder.draft.blocks.length := by
  refine ⟨h.throwTarget, fun breakable hb => ?_, fun breakable hb target ht => ?_⟩
  · exact h.targets _ (mem_targets.2 (.inr (.inl ⟨breakable, hb, List.mem_cons_self ..⟩)))
  · refine h.targets _ (mem_targets.2 (.inr (.inl ⟨breakable, hb, ?_⟩)))
    exact List.mem_cons_of_mem _ (Option.mem_toList.2 ht)

/-- Nothing leads to a block that has just been entered. -/
theorem InRange.sealed_enterBlock (h : builder.InRange)
    (ht : ∀ target ∈ RawEdge.targets edge, target.Within builder.draft.blocks.length) :
    ((Step.change (.enterBlock edge)).apply builder).Sealed := by
  refine ⟨h.apply _ ht, fun hm => ?_⟩
  have hw : (Draft.enterBlock edge builder.draft).here.Within builder.draft.blocks.length := by
    rcases Step.mem_targets_apply _ hm with hm | hm
    · exact h.targets _ hm
    · exact ht _ hm
  simp at hw

theorem InRange.sealed_enter (h : builder.InRange)
    (ht : target.Within builder.draft.blocks.length) :
    ((Step.change (.enterBlock (.jump (some target)))).apply builder).Sealed :=
  h.sealed_enterBlock (by simpa [RawEdge.targets, RawEdge.ways] using ht)

/-- A step that makes no targets keeps a builder sealed, unless it enters a block. -/
theorem Sealed.apply (h : builder.Sealed) (step : Step) (ht : step.targets builder = [])
    (hc : (step.apply builder).draft.here = builder.draft.here) :
    (step.apply builder).Sealed := by
  refine ⟨h.toInRange.apply step (by simp [ht]), fun hm => ?_⟩
  rw [hc] at hm
  rcases step.mem_targets_apply hm with hm | hm
  · exact h.fresh hm
  · rw [ht] at hm
    exact List.not_mem_nil hm

theorem Sealed.prepend (h : builder.Sealed) (element : Element) :
    ((Step.change (.prepend element)).apply builder).Sealed :=
  h.apply _ rfl rfl

/-- The builder is sealed at every visit, and where a walk fails. -/
def sealing : Demand where
  step builder step := step = .visit → builder.Sealed
  failed := Sealed

theorem sealing_change {step : Draft.Step} : sealing.step builder (.change step) :=
  nofun

end Builder

end FlowLint
