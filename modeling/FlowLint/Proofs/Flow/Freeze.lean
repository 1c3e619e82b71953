import FlowLint.Flow.Freeze
import FlowLint.Proofs.Flow.Contraction
import FlowLint.Proofs.Flow.Reach
import FlowLint.Proofs.Success
import Mathlib.Data.List.Permutation
import Mathlib.Data.Set.Function
import Mathlib.Order.Interval.Set.Defs

namespace FlowLint
set_option autoImplicit true

namespace Edge

/-- The edge as one under construction, with every target there. -/
def toRaw : Edge → RawEdge
  | always target => .jump (some target)
  | branch onTrue onFalse => .branch (some onTrue) onFalse

def map (place : Nat → Nat) : Edge → Edge
  | always target => always (target.map place)
  | branch onTrue onFalse => branch (onTrue.map place) (onFalse.map place)

theorem ways_toRaw (edge : Edge) : edge.toRaw.ways = edge.ways := by
  cases edge <;> rfl

theorem ways_map (edge : Edge) :
    (edge.map place).ways = edge.ways.map fun way => (way.1, way.2.map place) := by
  cases edge <;> rfl

theorem targets_map (edge : Edge) : (edge.map place).targets = edge.targets.map (·.map place) := by
  cases edge <;> rfl

theorem targets_toRaw (edge : Edge) : edge.toRaw.targets = edge.targets := by
  cases edge <;> rfl

theorem successors_increasing (edge : Edge) : edge.successors.Pairwise Vertex.Before := by
  cases edge with
  | always target => simp [successors]
  | branch onTrue onFalse =>
    rw [successors]
    split
    · simp
    · next hne =>
      split
      · next hle => simpa using ⟨hle, hne⟩
      · next hle =>
        have ht := (Vertex.le_total onTrue onFalse).resolve_left hle
        simpa using ⟨ht, fun he => hne he.symm⟩

end Edge

theorem idxOf_eq_of_getElem? {items : List Nat} {k i : Nat} (hn : items.Nodup)
    (h : items[k]? = some i) : items.idxOf i = k := by
  obtain ⟨hk, rfl⟩ := List.getElem?_eq_some_iff.1 h
  exact hn.idxOf_getElem k hk

namespace RawGraph

variable {α : Type}

/-- A finished graph is another one with its blocks renumbered by `place`, in the order of where
they start in the source and then of their former numbers. -/
structure FrozenTo [Ranged α] (raw : RawGraph α) (graph : Graph α) (place : Nat → Nat) : Prop where
  size : graph.size = raw.blocks.length
  bijOn : Set.BijOn place (Set.Iio raw.blocks.length) (Set.Iio raw.blocks.length)
  start_isSome : ∀ block ∈ raw.blocks, block.start?.isSome = true
  place_lt_iff : ∀ i j block block' start start', raw.blocks[i]? = some block →
    raw.blocks[j]? = some block' → block.start? = some start → block'.start? = some start' →
    (place i < place j ↔ start < start' ∨ start = start' ∧ i < j)
  block : ∀ index block, raw.blocks[index]? = some block → ∃ edge : Edge,
    block.edge = edge.toRaw ∧ graph.blocks[place index]? = some ⟨block.elements, edge.map place⟩
  start : graph.start = raw.start.map place

variable [Ranged α] {raw : RawGraph α} {graph : Graph α} {index : Nat} {block : RawBlock α}

theorem precedes_iff {left right : RawBlock α × Nat} :
    precedes left right = true ↔
      (key left).1 < (key right).1 ∨ (key left).1 = (key right).1 ∧ left.2 ≤ right.2 := by
  simp only [precedes, Bool.or_eq_true, Bool.and_eq_true, decide_eq_true_eq, beq_iff_eq]
  rfl

theorem sourceOrder_pairwise (raw : RawGraph α) :
    raw.sourceOrder.Pairwise fun left right => precedes left right = true := by
  refine List.pairwise_mergeSort (fun a b c hab hbc => ?_) (fun a b => ?_) _
  · rw [precedes_iff] at *
    omega
  · rw [Bool.or_eq_true, precedes_iff, precedes_iff]
    omega

theorem mem_sourceOrder : (block, index) ∈ raw.sourceOrder ↔ raw.blocks[index]? = some block := by
  rw [sourceOrder, List.mem_mergeSort, List.mk_mem_zipIdx_iff_getElem?]

def numbers (raw : RawGraph α) : List Nat :=
  raw.sourceOrder.map (·.2)

theorem numbers_perm (raw : RawGraph α) : raw.numbers.Perm (List.range raw.blocks.length) := by
  have hp := (List.mergeSort_perm raw.blocks.zipIdx precedes).map (·.2)
  rwa [List.zipIdx_map_snd, ← List.range_eq_range'] at hp

theorem numbers_nodup (raw : RawGraph α) : raw.numbers.Nodup :=
  raw.numbers_perm.nodup_iff.2 List.nodup_range

theorem length_numbers (raw : RawGraph α) : raw.numbers.length = raw.blocks.length := by
  rw [raw.numbers_perm.length_eq, List.length_range]

theorem mem_numbers : index ∈ raw.numbers ↔ index < raw.blocks.length := by
  rw [raw.numbers_perm.mem_iff, List.mem_range]

theorem sourceOrder_idxOf (h : raw.blocks[index]? = some block) :
    raw.sourceOrder[raw.numbers.idxOf index]? = some (block, index) := by
  have hm := mem_sourceOrder.2 h
  obtain ⟨k, hk, hget⟩ := List.mem_iff_getElem.1 hm
  have hs : raw.sourceOrder[k]? = some (block, index) := by
    rw [List.getElem?_eq_getElem hk, hget]
  have hn : raw.numbers[k]? = some index := by
    rw [numbers, List.getElem?_map, hs]
    rfl
  rw [idxOf_eq_of_getElem? raw.numbers_nodup hn, hs]

theorem idxOf_bijOn (raw : RawGraph α) :
    Set.BijOn raw.numbers.idxOf (Set.Iio raw.blocks.length) (Set.Iio raw.blocks.length) := by
  refine ⟨fun i hi => ?_, fun i hi j hj he => ?_, fun k hk => ?_⟩
  · rw [Set.mem_Iio, ← raw.length_numbers]
    exact List.idxOf_lt_length_of_mem (mem_numbers.2 hi)
  · exact (List.idxOf_inj (mem_numbers.2 hi)).1 he
  · rw [Set.mem_Iio, ← raw.length_numbers] at hk
    refine ⟨raw.numbers[k], mem_numbers.1 (List.getElem_mem hk), ?_⟩
    exact raw.numbers_nodup.idxOf_getElem k hk

theorem precedes_of_idxOf_lt {i j : Nat} {block' : RawBlock α} (hi : raw.blocks[i]? = some block)
    (hj : raw.blocks[j]? = some block') (h : raw.numbers.idxOf i < raw.numbers.idxOf j) :
    precedes (block, i) (block', j) = true := by
  obtain ⟨hki, hgi⟩ := List.getElem?_eq_some_iff.1 (sourceOrder_idxOf hi)
  obtain ⟨hkj, hgj⟩ := List.getElem?_eq_some_iff.1 (sourceOrder_idxOf hj)
  have hp := List.pairwise_iff_getElem.1 raw.sourceOrder_pairwise _ _ hki hkj h
  rwa [hgi, hgj] at hp

theorem idxOf_lt_iff {i j start start' : Nat} {block' : RawBlock α}
    (hi : raw.blocks[i]? = some block) (hj : raw.blocks[j]? = some block')
    (hs : block.start? = some start) (hs' : block'.start? = some start') :
    raw.numbers.idxOf i < raw.numbers.idxOf j ↔ start < start' ∨ start = start' ∧ i < j := by
  have key_i : (key (block, i)).1 = start := by simp [key, hs]
  have key_j : (key (block', j)).1 = start' := by simp [key, hs']
  have hlen {k : Nat} {b : RawBlock α} (hb : raw.blocks[k]? = some b) : k < raw.blocks.length :=
    (List.getElem?_eq_some_iff.1 hb).1
  rcases Nat.lt_trichotomy (raw.numbers.idxOf i) (raw.numbers.idxOf j) with hlt | heq | hlt
  · have hp := precedes_iff.1 (precedes_of_idxOf_lt hi hj hlt)
    have hne : i ≠ j := by
      rintro rfl
      omega
    simp only [key_i, key_j] at hp
    omega
  · have he := raw.idxOf_bijOn.injOn (hlen hi) (hlen hj) heq
    subst he
    rw [hi] at hj
    cases hj
    rw [hs] at hs'
    cases hs'
    omega
  · have hp := precedes_iff.1 (precedes_of_idxOf_lt hj hi hlt)
    simp only [key_i, key_j] at hp
    omega

theorem renumber_sourceOrder (raw : RawGraph α) (vertex : Vertex) :
    renumber raw.sourceOrder vertex = vertex.map raw.numbers.idxOf := by
  cases vertex <;> rfl

theorem freezeEdge_eq_ok {f : Vertex → Vertex} {edge : RawEdge} {edge' : Edge} (place : Nat → Nat)
    (hf : ∀ vertex, f vertex = vertex.map place) :
    freezeEdge f index edge = .ok edge' ↔ ∃ e : Edge, edge = e.toRaw ∧ e.map place = edge' := by
  constructor
  · intro h
    match edge with
    | .jump none => cases h
    | .jump (some target) =>
      cases h
      exact ⟨.always target, rfl, by simp [Edge.map, hf]⟩
    | .branch none _ => cases h
    | .branch (some onTrue) onFalse =>
      cases h
      exact ⟨.branch onTrue onFalse, rfl, by simp [Edge.map, hf]⟩
  · rintro ⟨e, rfl, rfl⟩
    cases e <;> simp [Edge.toRaw, Edge.map, freezeEdge, hf]

theorem freeze_eq_ok : raw.freeze = .ok graph ↔
    (∀ block ∈ raw.blocks, block.isEmpty = false) ∧
      (raw.sourceOrder.mapM fun (block, index) => do
        let edge ← freezeEdge (renumber raw.sourceOrder) index block.edge
        return (⟨block.elements, edge⟩ : BasicBlock α)) = .ok graph.blocks ∧
      graph.start = raw.start.map raw.numbers.idxOf := by
  obtain ⟨blocks, start⟩ := graph
  rw [freeze, ← renumber_sourceOrder]
  cases he : raw.blocks.findIdx? (·.isEmpty) with
  | some index =>
    obtain ⟨hlt, hb, -⟩ := List.findIdx?_eq_some_iff_getElem.1 he
    simp only [throw, throwThe, MonadExceptOf.throw, reduceCtorEq, false_iff, not_and]
    intro hn
    rw [hn _ (List.getElem_mem hlt)] at hb
    cases hb
  | none =>
    rw [List.findIdx?_eq_none_iff] at he
    simp only [bind_eq_ok, pure_eq_ok, Graph.mk.injEq]
    exact ⟨fun ⟨_, hb, h₁, h₂⟩ => ⟨he, h₁ ▸ hb, h₂.symm⟩, fun ⟨_, hb, h₂⟩ => ⟨_, hb, rfl, h₂.symm⟩⟩

theorem frozenTo_of_freeze (h : raw.freeze = .ok graph) :
    raw.FrozenTo graph raw.numbers.idxOf := by
  obtain ⟨hn, hb, hs⟩ := freeze_eq_ok.1 h
  have hsize : graph.size = raw.blocks.length := by
    rw [Graph.size, ← (mapM_eq_ok.1 hb).length_eq, sourceOrder, List.length_mergeSort,
      List.length_zipIdx]
  refine ⟨hsize, raw.idxOf_bijOn, fun block hm => ?_, fun i j block block' start start' => ?_,
    fun index block hi => ?_, hs⟩
  · have he := hn block hm
    cases hbe : block.elements with
    | nil => simp [RawBlock.isEmpty, hbe] at he
    | cons => simp [RawBlock.start?, hbe]
  · exact idxOf_lt_iff
  · obtain ⟨block', hb', hx⟩ := getElem?_of_mapM hb (sourceOrder_idxOf hi)
    obtain ⟨edge, he, hx⟩ := bind_eq_ok.1 hx
    obtain ⟨e, hraw, rfl⟩ := (freezeEdge_eq_ok _ (renumber_sourceOrder raw)).1 he
    rw [← pure_eq_ok.1 hx] at hb'
    exact ⟨e, hraw, hb'⟩

variable {place : Nat → Nat}

theorem FrozenTo.exists_place (h : raw.FrozenTo graph place) {k : Nat} (hk : k < graph.size) :
    ∃ (i : Nat) (block : RawBlock α) (edge : Edge), raw.blocks[i]? = some block ∧ place i = k ∧
      block.edge = edge.toRaw ∧ graph.blocks[k]? = some ⟨block.elements, edge.map place⟩ := by
  obtain ⟨i, hi, rfl⟩ := h.bijOn.surjOn (h.size ▸ hk)
  have hb := List.getElem?_eq_getElem hi
  obtain ⟨edge, he, hg⟩ := h.block i _ hb
  exact ⟨i, _, edge, hb, rfl, he, hg⟩

theorem FrozenTo.within_map (h : raw.FrozenTo graph place) {vertex : Vertex}
    (hv : vertex.Within raw.blocks.length) : (vertex.map place).Within graph.size := by
  cases vertex with
  | exit => trivial
  | block index => exact h.size ▸ h.bijOn.mapsTo hv

theorem FrozenTo.contracts (h : raw.FrozenTo graph place) (hr : raw.InRange) :
    raw.chart.Contracts graph.chart fun u v => u.Within raw.blocks.length ∧ u.map place = v where
  exit := by
    rintro u _ ⟨-, rfl⟩
    cases u <;> simp [Vertex.map]
  elements := by
    rintro u _ ⟨hu, rfl⟩
    cases u with
    | exit => rfl
    | block index =>
      obtain ⟨edge, -, hg⟩ := h.block index _ (List.getElem?_eq_getElem hu)
      simp [chart, Graph.chart, Vertex.map, hg, List.getElem?_eq_getElem hu]
  ways := by
    rintro u _ ⟨hu, rfl⟩
    cases u with
    | exit => exact .nil
    | block index =>
      have hb := List.getElem?_eq_getElem hu
      obtain ⟨edge, he, hg⟩ := h.block index _ hb
      have hways : raw.chart.ways (.block index) = edge.ways := by
        simp [chart, hb, he, Edge.ways_toRaw]
      have hways' : graph.chart.ways ((Vertex.block index).map place) =
          edge.ways.map fun way => (way.1, way.2.map place) := by
        simp [Graph.chart, Vertex.map, hg, Edge.ways_map]
      rw [hways, hways', List.forall₂_map_right_iff, List.forall₂_same]
      intro way hm
      refine ⟨rfl, way.2, .refl, hr.1 _ (List.getElem_mem hu) way.2 ?_, rfl⟩
      rw [he, RawEdge.mem_targets, Edge.ways_toRaw]
      exact ⟨way.1, hm⟩

theorem FrozenTo.reads_start_iff (h : raw.FrozenTo graph place) (hr : raw.InRange) :
    raw.chart.Reads raw.start word ending ↔ graph.chart.Reads graph.start word ending :=
  (h.contracts hr).reads_iff .refl ⟨hr.2, h.start.symm⟩

end RawGraph

namespace Predecessors

variable {lists : Predecessors} {vertex target : Vertex}

@[simp] theorem length_empty (size : Nat) : (empty size).blocks.length = size :=
  List.length_replicate

@[simp] theorem length_push (index : Nat) (lists : Predecessors) (target : Vertex) :
    (lists.push index target).blocks.length = lists.blocks.length := by
  cases target <;> simp [push]

theorem of_push (h : vertex.Within lists.blocks.length) (index : Nat) (target : Vertex) :
    (lists.push index target).of vertex =
      if vertex = target then lists.of vertex ++ [index] else lists.of vertex := by
  cases vertex with
  | exit => cases target <;> simp [push, of]
  | block number =>
    cases target with
    | exit => simp [push, of]
    | block other =>
      have hlt : number < lists.blocks.length := h
      by_cases he : number = other
      · simp [push, of, he, List.getD_eq_getElem?_getD, he ▸ hlt]
      · simp [push, of, he, List.getD_eq_getElem?_getD, Ne.symm he]

/-- Following the edges of one block enters it once for each of its distinct targets. -/
theorem of_foldl_push {targets : List Vertex} (h : vertex.Within lists.blocks.length)
    (hd : targets.Nodup) (index : Nat) :
    (targets.foldl (push index) lists).of vertex =
      if vertex ∈ targets then lists.of vertex ++ [index] else lists.of vertex := by
  induction targets generalizing lists with
  | nil => simp
  | cons target targets ih =>
    obtain ⟨hn, hd⟩ := List.nodup_cons.1 hd
    rw [List.foldl_cons, ih (by rwa [length_push]) hd, of_push h]
    by_cases he : vertex = target
    · simp [he, hn]
    · simp [he]

theorem length_foldl_push (targets : List Vertex) (index : Nat) :
    (targets.foldl (push index) lists).blocks.length = lists.blocks.length := by
  induction targets generalizing lists with
  | nil => rfl
  | cons target targets ih => rw [List.foldl_cons, ih, length_push]

end Predecessors

namespace Graph

variable {α : Type} {graph : Graph α} {vertex : Vertex}

theorem successors_increasing (graph : Graph α) (vertex : Vertex) :
    (graph.successors vertex).Pairwise Vertex.Before := by
  cases vertex with
  | exit => exact .nil
  | block index =>
    cases hb : graph.blocks[index]? with
    | none => simp [successors, hb]
    | some block => simpa [successors, hb] using block.edge.successors_increasing

@[simp] theorem length_follow (graph : Graph α) (lists : Predecessors) (index : Nat) :
    (graph.follow lists index).blocks.length = lists.blocks.length :=
  Predecessors.length_foldl_push ..

theorem of_follow {lists : Predecessors} (h : vertex.Within lists.blocks.length)
    (graph : Graph α) (index : Nat) :
    (graph.follow lists index).of vertex =
      if vertex ∈ graph.successors (.block index) then lists.of vertex ++ [index]
      else lists.of vertex :=
  Predecessors.of_foldl_push h ((graph.successors_increasing _).imp And.right) index

/-- Following the edges of some blocks enters for each vertex those that have an edge to it. -/
theorem of_foldl_follow {lists : Predecessors} (h : vertex.Within lists.blocks.length)
    (graph : Graph α) (indices : List Nat) :
    (indices.foldl graph.follow lists).of vertex =
      lists.of vertex ++ indices.filter fun index => vertex ∈ graph.successors (.block index) := by
  induction indices generalizing lists with
  | nil => simp
  | cons index indices ih =>
    rw [List.foldl_cons, ih (by rwa [length_follow]), of_follow h]
    by_cases hm : vertex ∈ graph.successors (.block index) <;> simp [hm]

theorem length_foldl_follow (graph : Graph α) (lists : Predecessors) (indices : List Nat) :
    (indices.foldl graph.follow lists).blocks.length = lists.blocks.length := by
  induction indices generalizing lists with
  | nil => rfl
  | cons index indices ih => rw [List.foldl_cons, ih, length_follow]

theorem predecessors_eq_filter (h : vertex.Within graph.size) :
    graph.predecessors vertex =
      (List.range graph.size).filter fun index => vertex ∈ graph.successors (.block index) := by
  have hempty : (Predecessors.empty graph.size).of vertex = [] := by
    cases vertex with
    | exit => rfl
    | block index =>
      have hlt : index < graph.size := h
      simp [Predecessors.empty, Predecessors.of, List.getD_eq_getElem?_getD, hlt]
  rw [predecessors, predecessorLists, of_foldl_follow (by rwa [Predecessors.length_empty]), hempty,
    List.nil_append]

/-- A block that no list is kept for has no predecessors. -/
theorem predecessors_eq_nil (h : ¬ vertex.Within graph.size) : graph.predecessors vertex = [] := by
  cases vertex with
  | exit => exact absurd trivial h
  | block index =>
    have hlength : graph.predecessorLists.blocks.length = graph.size := by
      rw [predecessorLists, length_foldl_follow, Predecessors.length_empty]
    have hnone := List.getElem?_eq_none (hlength ▸ Nat.not_lt.1 h)
    rw [predecessors, Predecessors.of, List.getD_eq_getElem?_getD, hnone, Option.getD_none]

/-- The predecessors of a vertex are the blocks with an edge to it. -/
theorem mem_predecessors (h : vertex.Within graph.size) :
    index ∈ graph.predecessors vertex ↔ vertex ∈ graph.successors (.block index) := by
  rw [predecessors_eq_filter h, List.mem_filter, List.mem_range, decide_eq_true_eq,
    and_iff_right_iff_imp]
  exact lt_size_of_mem_successors

theorem predecessors_increasing (graph : Graph α) (vertex : Vertex) :
    (graph.predecessors vertex).Pairwise (· < ·) := by
  by_cases h : vertex.Within graph.size
  · rw [predecessors_eq_filter h]
    exact List.pairwise_lt_range.filter _
  · rw [predecessors_eq_nil h]
    exact .nil

/-- Every edge leads to a block of the graph or to the exit. -/
def Closed (graph : Graph α) : Prop :=
  ∀ source target, target ∈ graph.successors source → target.Within graph.size

theorem Closed.mem_predecessors (hc : graph.Closed) :
    index ∈ graph.predecessors vertex ↔ vertex ∈ graph.successors (.block index) := by
  by_cases h : vertex.Within graph.size
  · exact Graph.mem_predecessors h
  · simp only [predecessors_eq_nil h, List.not_mem_nil, false_iff]
    exact fun hm => h (hc _ _ hm)

end Graph

namespace RawGraph

variable {α : Type} [Ranged α] {raw : RawGraph α} {graph : Graph α}

theorem FrozenTo.targets_within (h : raw.FrozenTo graph place) (hr : raw.InRange)
    {block : BasicBlock α} (hm : block ∈ graph.blocks) (ht : target ∈ block.edge.targets) :
    target.Within graph.size := by
  obtain ⟨k, hk, rfl⟩ := List.mem_iff_getElem.1 hm
  obtain ⟨i, source, edge, hi, -, he, hg⟩ := h.exists_place hk
  rw [List.getElem?_eq_getElem hk, Option.some.injEq] at hg
  rw [hg, Edge.targets_map, List.mem_map] at ht
  obtain ⟨target', ht', rfl⟩ := ht
  have hwithin := hr.1 source (List.mem_of_getElem? hi) target'
  rw [he, Edge.targets_toRaw] at hwithin
  exact h.within_map (hwithin ht')

theorem FrozenTo.closed (h : raw.FrozenTo graph place) (hr : raw.InRange) : graph.Closed := by
  intro source target ht
  cases source with
  | exit => cases ht
  | block index =>
    cases hb : graph.blocks[index]? with
    | none => simp [Graph.successors, hb] at ht
    | some block =>
      rw [Graph.successors, hb, Option.elim_some, Edge.mem_successors] at ht
      exact h.targets_within hr (List.mem_of_getElem? hb) ht

/-- Finishing a graph renumbers its blocks in source order and changes nothing else. The successors
of a block are the distinct targets of its edge, and the predecessors of a vertex are the blocks it
succeeds, both in ascending order. -/
theorem freeze_isomorphism (hr : raw.InRange) (h : raw.freeze = .ok graph) :
    (∃ place, raw.FrozenTo graph place) ∧
    (∀ block ∈ graph.blocks, ∀ target ∈ block.edge.targets, target.Within graph.size) ∧
    graph.start.Within graph.size ∧
    (∀ index block, graph.blocks[index]? = some block →
      (graph.successors (.block index)).Pairwise Vertex.Before ∧
      ∀ target, target ∈ graph.successors (.block index) ↔ target ∈ block.edge.targets) ∧
    (∀ vertex, (graph.predecessors vertex).Pairwise (· < ·) ∧
      ∀ index, index ∈ graph.predecessors vertex ↔ vertex ∈ graph.successors (.block index)) ∧
    graph.successors .exit = [] := by
  have hf := frozenTo_of_freeze h
  have hclosed := hf.closed hr
  refine ⟨⟨_, hf⟩, fun block hm target => hf.targets_within hr hm, hf.start ▸ hf.within_map hr.2,
    fun index block hb => ⟨graph.successors_increasing _, fun target => ?_⟩,
    fun vertex => ⟨graph.predecessors_increasing _, fun index => hclosed.mem_predecessors⟩, rfl⟩
  rw [Graph.successors, hb]
  exact Edge.mem_successors

/-- A graph whose blocks were not made in source order, two of them from the same place. -/
def unordered : RawGraph Range :=
  ⟨[⟨[⟨9, 12⟩], .jump (some .exit)⟩, ⟨[⟨4, 6⟩, ⟨7, 8⟩], .branch (some (.block 0)) (.block 2)⟩,
    ⟨[⟨4, 5⟩], .branch (some (.block 0)) (.block 0)⟩], .block 1⟩

def ordered : Graph Range :=
  ⟨[⟨[⟨4, 6⟩, ⟨7, 8⟩], .branch (.block 2) (.block 1)⟩,
    ⟨[⟨4, 5⟩], .branch (.block 2) (.block 2)⟩, ⟨[⟨9, 12⟩], .always .exit⟩], .block 0⟩

theorem freeze_isomorphism_unordered :
    unordered.InRange ∧ unordered.freeze = .ok ordered ∧
      (∃ place, unordered.FrozenTo ordered place) ∧
      ∀ index, index ∈ ordered.predecessors (.block 2) ↔
        .block 2 ∈ ordered.successors (.block index) := by
  have hr : unordered.InRange := by decide
  have h : unordered.freeze = .ok ordered := by cbv
  have hf := freeze_isomorphism hr h
  exact ⟨hr, h, hf.1, (hf.2.2.2.2.1 (.block 2)).2⟩

end RawGraph

end FlowLint
