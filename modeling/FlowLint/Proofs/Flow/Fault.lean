import FlowLint.Proofs.Flow.Development
import FlowLint.Proofs.Flow.Freeze
import FlowLint.Proofs.Flow.Splice
import FlowLint.Proofs.Success

namespace FlowLint
set_option autoImplicit true

theorem RawEdge.targets_mapTargets (f : Vertex → Except GraphError Vertex) (edge : RawEdge) :
    (edge.mapTargets f).map targets = edge.targets.mapM f := by
  rcases edge with ⟨_ | target⟩ | ⟨_ | onTrue, onFalse⟩
  · rfl
  · simp only [mapTargets, targets, ways, List.map_cons, List.map_nil, List.mapM_cons,
      List.mapM_nil]
    cases f target <;> rfl
  · simp only [mapTargets, targets, ways, List.map_cons, List.map_nil, List.mapM_cons,
      List.mapM_nil]
    cases f onFalse <;> rfl
  · simp only [mapTargets, targets, ways, List.map_cons, List.map_nil, List.mapM_cons,
      List.mapM_nil]
    cases f onTrue with
    | error => rfl
    | ok => cases f onFalse <;> rfl

theorem RawEdge.Redirects.exists_target {edge edge' : RawEdge} (h : edge.Redirects stands edge')
    (ht : target ∈ edge.targets) : ∃ target', stands target target' := by
  obtain ⟨side, hw⟩ := mem_targets.1 ht
  obtain ⟨way, -, -, hs⟩ := exists_mem_of_forall₂ h.ways hw
  exact ⟨way.2, hs⟩

/-- An empty block that does not simply lead on, with what is said of it. -/
inductive RawBlock.Stuck {α : Type} : RawBlock α → (Nat → GraphError) → Prop
  | unwired : Stuck ⟨[], .jump none⟩ .unwiredGuard
  | branch {onTrue : Option Vertex} {onFalse : Vertex} :
      Stuck ⟨[], .branch onTrue onFalse⟩ .emptyBranch

theorem RawBlock.defect?_eq_some {α : Type} {block : RawBlock α} :
    block.defect? index = some error ↔
      ∃ complaint, block.Stuck complaint ∧ complaint index = error := by
  constructor
  · intro h
    rcases block with ⟨_ | _, ⟨_ | _⟩ | _⟩ <;> simp [defect?, isEmpty] at h
    · exact ⟨_, .unwired, h⟩
    · exact ⟨_, .branch, h⟩
  · rintro ⟨complaint, _ | _, rfl⟩ <;> rfl

namespace RawGraph

open Relation

variable {α : Type} {graph result : RawGraph α} {block : RawBlock α} {index : Nat}
  {vertex source target root : Vertex} {error : GraphError}

def Bypasses (graph : RawGraph α) (source target : Vertex) : Prop :=
  ∃ index, source = .block index ∧ graph.blocks[index]? = some ⟨[], .jump (some target)⟩

/-- The chain of empty blocks from a vertex never leaves the empty blocks. -/
def Endless (graph : RawGraph α) (vertex : Vertex) : Prop :=
  ∀ target, ReflTransGen graph.Bypasses vertex target →
    ∃ index edge, target = .block index ∧ graph.blocks[index]? = some ⟨[], edge⟩

/-- A block lies on a cycle of empty blocks. -/
def Circles (graph : RawGraph α) (index : Nat) : Prop :=
  TransGen graph.Bypasses (.block index) (.block index)

theorem Bypasses.unique (h : graph.Bypasses source target) (h' : graph.Bypasses source target') :
    target = target' := by
  obtain ⟨index, rfl, hb⟩ := h
  obtain ⟨_, he, hb'⟩ := h'
  cases he
  rw [hb] at hb'
  cases hb'
  rfl

theorem Survives.not_bypasses (h : graph.Survives source) : ¬ graph.Bypasses source target := by
  rintro ⟨index, rfl, hb⟩
  exact h.not_empty hb

/-- A chain that ends passes no cycle. -/
theorem Skips.not_circles (h : graph.Skips source target)
    (hp : ReflTransGen graph.Bypasses source (.block index)) : ¬ graph.Circles index := by
  induction h generalizing index with
  | arrive hs =>
    intro hc
    rcases hp.cases_head with rfl | ⟨_, hb, -⟩
    · obtain ⟨_, hb, -⟩ := TransGen.head'_iff.1 hc
      exact hs.not_bypasses hb
    · exact hs.not_bypasses hb
  | @bypass start next target hb hs ih =>
    have hnext : graph.Bypasses (.block start) next := ⟨start, rfl, hb⟩
    intro hc
    rcases hp.cases_head with he | ⟨middle, hm, hrest⟩
    · cases he
      obtain ⟨middle, hm, hrest⟩ := TransGen.head'_iff.1 hc
      obtain rfl := hm.unique hnext
      exact ih hrest hc
    · obtain rfl := hm.unique hnext
      exact ih hrest hc

theorem Skips.reaches (h : graph.Skips source target) :
    ReflTransGen graph.Bypasses source target := by
  induction h with
  | arrive => exact .refl
  | @bypass start next target hb hs ih => exact .head ⟨start, rfl, hb⟩ ih

theorem Skips.of_reaches (hp : ReflTransGen graph.Bypasses source target)
    (hs : graph.Survives target) : graph.Skips source target := by
  induction hp using ReflTransGen.head_induction_on with
  | refl => exact .arrive hs
  | head hb _ ih =>
    obtain ⟨index, rfl, hb⟩ := hb
    exact .bypass hb ih

theorem Skips.not_endless (h : graph.Skips source target) : ¬ graph.Endless source := by
  intro he
  obtain ⟨index, edge, rfl, hb⟩ := he _ h.reaches
  exact h.survives.not_empty hb

theorem within_of_reaches (hr : graph.InRange) (hv : source.Within graph.blocks.length)
    (hp : ReflTransGen graph.Bypasses source target) : target.Within graph.blocks.length := by
  induction hp with
  | refl => exact hv
  | tail _ hb _ =>
    obtain ⟨index, rfl, hb⟩ := hb
    exact hr.within hb (by simp [RawEdge.targets, RawEdge.ways])

/-- A chain that passes a cycle never ends. -/
theorem endless_of_circles (hr : graph.InRange) (hv : vertex.Within graph.blocks.length)
    (hp : ReflTransGen graph.Bypasses vertex (.block index)) (hc : graph.Circles index) :
    graph.Endless vertex := by
  intro target ht
  by_contra hn
  have hs : graph.Survives target := by
    have hw := within_of_reaches hr hv ht
    cases target with
    | exit => trivial
    | block place =>
      have hb := List.getElem?_eq_getElem hw
      refine ⟨_, hb, Bool.eq_false_iff.2 fun he => hn ⟨place, graph.blocks[place].edge, rfl, ?_⟩⟩
      rw [hb, ← List.isEmpty_iff.1 he]
  exact (Skips.of_reaches ht hs).not_circles hp hc

/-- The search for the end of a chain fails on a cycle that the chain has come to. The blocks that
are not fresh any more are those that it has passed. -/
theorem circles_of_skipEmpty (hr : graph.InRange) (hv : vertex.Within graph.blocks.length)
    (hpassed : ∀ index < graph.blocks.length, index ∉ fresh →
      TransGen graph.Bypasses (.block index) vertex)
    (h : graph.skipEmpty fresh vertex = .error error) :
    ∃ index, error = .emptyCycle index ∧ graph.Circles index ∧
      ReflTransGen graph.Bypasses vertex (.block index) := by
  fun_induction skipEmpty graph fresh vertex with
  | case1 | case2 => cases h
  | case3 fresh index next hb hf ih =>
    rw [bypass?_eq_some] at hb
    have hstep : graph.Bypasses (.block index) next := ⟨index, rfl, hb⟩
    have hpassed' : ∀ place < graph.blocks.length, place ∉ fresh.erase index →
        TransGen graph.Bypasses (.block place) next := by
      intro place hlt hn
      by_cases heq : place = index
      · exact heq ▸ .single hstep
      · have hfresh : place ∉ fresh := fun hm => hn ((List.mem_erase_of_ne heq).2 hm)
        exact .tail (hpassed place hlt hfresh) hstep
    have hnext : next.Within graph.blocks.length :=
      hr.within hb (by simp [RawEdge.targets, RawEdge.ways])
    obtain ⟨found, he, hc, hp⟩ := ih hnext hpassed' h
    exact ⟨found, he, hc, .head hstep hp⟩
  | case4 fresh index next hb hf =>
    cases h
    exact ⟨index, rfl, hpassed index hv hf, .refl⟩

theorem circles_of_image (hd : graph.defect? = none) (hr : graph.InRange)
    (hv : vertex.Within graph.blocks.length) (h : graph.image vertex = .error error) :
    ∃ index, error = .emptyCycle index ∧ graph.Circles index ∧
      ReflTransGen graph.Bypasses vertex (.block index) := by
  rcases bind_eq_error.1 h with hs | ⟨survivor, hs, -⟩
  · exact circles_of_skipEmpty hr hv (fun index hlt hn => (hn (List.mem_range.2 hlt)).elim) hs
  · cases (image_of_skipEmpty hd hr hv hs).symm.trans h

/-- The vertices that are looked up when a graph is spliced, in this order: the targets of the
blocks with elements, and the start. -/
def roots (graph : RawGraph α) : List Vertex :=
  (graph.blocks.filter (!·.isEmpty)).flatMap (·.edge.targets) ++ [graph.start]

/-- What splicing a graph stumbles over, with the error. -/
inductive SpliceFault (graph : RawGraph α) : GraphError → Prop
  | stuck {index : Nat} {block : RawBlock α} {complaint : Nat → GraphError}
      (hb : graph.blocks[index]? = some block) (hs : block.Stuck complaint)
      (first : ∀ i < index, ∀ earlier complaint', graph.blocks[i]? = some earlier →
        ¬ earlier.Stuck complaint') :
      SpliceFault graph (complaint index)
  | cycle {index : Nat} {before behind : List Vertex} {root : Vertex}
      (free : ∀ block ∈ graph.blocks, ∀ complaint, ¬ block.Stuck complaint)
      (hroots : graph.roots = before ++ root :: behind)
      (first : ∀ earlier ∈ before, ¬ graph.Endless earlier) (he : graph.Endless root)
      (hp : ReflTransGen graph.Bypasses root (.block index)) (hc : graph.Circles index) :
      SpliceFault graph (.emptyCycle index)

theorem InRange.within_of_mem_roots (hr : graph.InRange) (hm : root ∈ graph.roots) :
    root.Within graph.blocks.length := by
  rcases List.mem_append.1 hm with hm | hm
  · obtain ⟨block, hb, ht⟩ := List.mem_flatMap.1 hm
    exact hr.1 block (List.mem_of_mem_filter hb) root ht
  · exact List.mem_singleton.1 hm ▸ hr.2

theorem defect?_eq_none_iff : graph.defect? = none ↔
    ∀ block ∈ graph.blocks, ∀ complaint, ¬ block.Stuck complaint := by
  rw [defect?_eq_none]
  constructor
  · intro h block hm complaint hs
    obtain ⟨index, hb⟩ := List.mem_iff_getElem?.1 hm
    have hn := h index block hb
    rw [RawBlock.defect?_eq_some.2 ⟨complaint, hs, rfl⟩] at hn
    cases hn
  · intro h index block hb
    rw [Option.eq_none_iff_forall_ne_some]
    intro error he
    obtain ⟨complaint, hs, -⟩ := RawBlock.defect?_eq_some.1 he
    exact h block (List.mem_of_getElem? hb) complaint hs

theorem fault_of_defect? (h : graph.defect? = some error) : graph.SpliceFault error := by
  obtain ⟨before, ⟨block, index⟩, behind, hsplit, hd, hn⟩ := List.findSome?_eq_some_iff.1 h
  obtain ⟨complaint, hs, rfl⟩ := RawBlock.defect?_eq_some.1 hd
  have hzip : graph.blocks.zipIdx[before.length]? = some (block, index) := by
    rw [hsplit, List.getElem?_append_right (Nat.le_refl _), Nat.sub_self, List.getElem?_cons_zero]
  have hindex : index = before.length := by
    simp only [List.getElem?_zipIdx, Option.map_eq_some_iff, Prod.mk.injEq] at hzip
    obtain ⟨_, -, -, hi⟩ := hzip
    omega
  have hm : (block, index) ∈ graph.blocks.zipIdx := List.mem_of_getElem? hzip
  refine .stuck (List.mem_zipIdx_iff_getElem?.1 hm) hs fun i hi earlier complaint' hb hs' => ?_
  have hbefore : (earlier, i) ∈ before := by
    have hget : graph.blocks.zipIdx[i]? = some (earlier, i) := by
      simp [List.getElem?_zipIdx, hb]
    rw [hsplit, List.getElem?_append_left (hindex ▸ hi)] at hget
    exact List.mem_of_getElem? hget
  have hfree : earlier.defect? i = none := hn _ hbefore
  rw [RawBlock.defect?_eq_some.2 ⟨complaint', hs', rfl⟩] at hfree
  cases hfree

/-- A block of a spliced graph: its targets have been looked up. -/
def redirect (graph : RawGraph α) (block : RawBlock α) : Except GraphError (RawBlock α) := do
  let edge ← block.edge.mapTargets graph.image
  return { block with edge }

theorem exists_image_of_redirect {block' : RawBlock α} (h : graph.redirect block = .ok block')
    (ht : target ∈ block.edge.targets) : ∃ target', graph.image target = .ok target' := by
  obtain ⟨edge, he, -⟩ := bind_eq_ok.1 h
  have hm := RawEdge.targets_mapTargets graph.image block.edge
  rw [he] at hm
  obtain ⟨i, hi⟩ := List.mem_iff_getElem?.1 ht
  obtain ⟨target', -, hok⟩ := getElem?_of_mapM hm.symm hi
  exact ⟨target', hok⟩

theorem exists_image_of_mem {blocks : List (RawBlock α)}
    (h : ∀ block ∈ blocks, ∃ block', graph.redirect block = .ok block') :
    ∀ target ∈ blocks.flatMap (·.edge.targets), ∃ target', graph.image target = .ok target' := by
  intro target ht
  obtain ⟨block, hm, ht⟩ := List.mem_flatMap.1 ht
  obtain ⟨_, hok⟩ := h block hm
  exact exists_image_of_redirect hok ht

/-- Looking up the targets of a block fails at the first one that cannot be looked up. -/
theorem exists_target_of_redirect (h : graph.redirect block = .error error) :
    ∃ before target behind, block.edge.targets = before ++ target :: behind ∧
      (∀ earlier ∈ before, ∃ target', graph.image earlier = .ok target') ∧
      graph.image target = .error error := by
  rcases bind_eq_error.1 h with h | ⟨_, -, h⟩
  · have hm := RawEdge.targets_mapTargets graph.image block.edge
    rw [h] at hm
    exact exists_split_of_mapM hm.symm
  · cases h

/-- Without defects, splicing looks up the roots in order, and fails at the first one that cannot be
looked up. -/
theorem exists_root_of_splice (hd : graph.defect? = none) (h : graph.splice = .error error) :
    ∃ before root behind, graph.roots = before ++ root :: behind ∧
      (∀ earlier ∈ before, ∃ target, graph.image earlier = .ok target) ∧
      graph.image root = .error error := by
  simp only [splice, hd] at h
  split at h
  · cases h
  change ((graph.blocks.filter (!·.isEmpty)).mapM graph.redirect >>= _) = _ at h
  rcases bind_eq_error.1 h with h | ⟨blocks, hb, h⟩
  · obtain ⟨before, block, behind, hsplit, hbefore, hfail⟩ := exists_split_of_mapM h
    obtain ⟨before', root, behind', hsplit', hbefore', hroot⟩ := exists_target_of_redirect hfail
    have hroots : graph.roots = (before.flatMap (·.edge.targets) ++ before') ++ root ::
        (behind' ++ behind.flatMap (·.edge.targets) ++ [graph.start]) := by
      simp [roots, hsplit, hsplit']
    refine ⟨_, root, _, hroots, fun earlier hm => ?_, hroot⟩
    rcases List.mem_append.1 hm with hm | hm
    · exact exists_image_of_mem hbefore earlier hm
    · exact hbefore' earlier hm
  · rcases bind_eq_error.1 h with h | ⟨_, -, h⟩
    · refine ⟨_, graph.start, [], rfl, exists_image_of_mem fun block hm => ?_, h⟩
      obtain ⟨i, hi⟩ := List.mem_iff_getElem?.1 hm
      obtain ⟨block', -, hok⟩ := getElem?_of_mapM hb hi
      exact ⟨block', hok⟩
    · cases h

theorem fault_of_splice (hr : graph.InRange) (h : graph.splice = .error error) :
    graph.SpliceFault error := by
  cases hd : graph.defect? with
  | some defect =>
    simp only [splice, hd] at h
    cases h
    exact fault_of_defect? hd
  | none =>
    obtain ⟨before, root, behind, hroots, hbefore, hroot⟩ := exists_root_of_splice hd h
    have hwithin : ∀ vertex ∈ before ++ root :: behind, vertex.Within graph.blocks.length :=
      fun vertex hm => hr.within_of_mem_roots (hroots ▸ hm)
    have hw := hwithin root (by simp)
    obtain ⟨index, rfl, hc, hp⟩ := circles_of_image hd hr hw hroot
    refine .cycle (defect?_eq_none_iff.1 hd) hroots (fun earlier hm => ?_)
      (endless_of_circles hr hw hp hc) hp hc
    obtain ⟨target, ht⟩ := hbefore earlier hm
    obtain ⟨survivor, hs, -⟩ := bypassesTo_of_image hd hr (hwithin earlier (by simp [hm])) ht
    exact hs.not_endless

theorem not_endless_of_splice (hr : graph.InRange) (h : graph.splice = .ok result)
    (hm : root ∈ graph.roots) : ¬ graph.Endless root := by
  have hs := splicedTo_of_splice hr h
  rcases List.mem_append.1 hm with hm | hm
  · obtain ⟨block, hb, ht⟩ := List.mem_flatMap.1 hm
    obtain ⟨hb, hn⟩ := List.mem_filter.1 hb
    obtain ⟨index, hi⟩ := List.mem_iff_getElem?.1 hb
    obtain ⟨edge, -, hredirects⟩ := hs.block index block hi (by simpa using hn)
    obtain ⟨_, survivor, hskips, -⟩ := hredirects.exists_target ht
    exact hskips.not_endless
  · obtain ⟨survivor, hskips, -⟩ := hs.start
    rw [List.mem_singleton.1 hm]
    exact hskips.not_endless

theorem SpliceFault.ne_emptyBlock (h : graph.SpliceFault error) (index : Nat) :
    error ≠ .emptyBlock index := by
  cases h with
  | stuck _ hs => cases hs <;> nofun
  | cycle => nofun

theorem exists_splice_error_iff (hr : graph.InRange) :
    (∃ error, graph.splice = .error error) ↔
      (∃ block ∈ graph.blocks, ∃ complaint, block.Stuck complaint) ∨
        ∃ root ∈ graph.roots, graph.Endless root := by
  constructor
  · rintro ⟨error, h⟩
    cases fault_of_splice hr h with
    | stuck hb hs => exact .inl ⟨_, List.mem_of_getElem? hb, _, hs⟩
    | cycle _ hroots _ he => exact .inr ⟨_, by simp [hroots], he⟩
  · intro h
    cases hs : graph.splice with
    | error error => exact ⟨error, rfl⟩
    | ok result =>
      rcases h with ⟨block, hm, complaint, hstuck⟩ | ⟨root, hm, he⟩
      · have hd := ((splice_eq_ok hr).1 hs).1
        exact (defect?_eq_none_iff.1 hd block hm complaint hstuck).elim
      · exact (not_endless_of_splice hr hs hm he).elim

/-- What freezing a graph stumbles over, with the error. -/
inductive FreezeFault [Ranged α] (graph : RawGraph α) : GraphError → Prop
  | empty {index : Nat} {block : RawBlock α} (hb : graph.blocks[index]? = some block)
      (he : block.elements = [])
      (first : ∀ i < index, ∀ earlier, graph.blocks[i]? = some earlier → earlier.elements ≠ []) :
      FreezeFault graph (.emptyBlock index)
  | unwired {index start : Nat} {block : RawBlock α}
      (free : ∀ block ∈ graph.blocks, block.elements ≠ [])
      (hb : graph.blocks[index]? = some block) (hw : ¬ block.edge.Wired)
      (hs : block.start? = some start)
      (first : ∀ i other start', graph.blocks[i]? = some other → ¬ other.edge.Wired →
        other.start? = some start' → start < start' ∨ start = start' ∧ index ≤ i) :
      FreezeFault graph (.unwiredGuard index)

theorem freezeEdge_eq_error {f : Vertex → Vertex} {edge : RawEdge} :
    freezeEdge f index edge = .error error ↔ ¬ edge.Wired ∧ error = .unwiredGuard index := by
  rcases edge with ⟨_ | target⟩ | ⟨_ | onTrue, onFalse⟩ <;>
    simp [freezeEdge, RawEdge.Wired, eq_comm]

theorem findIdx?_isEmpty_eq_none :
    graph.blocks.findIdx? (·.isEmpty) = none ↔ ∀ block ∈ graph.blocks, block.elements ≠ [] := by
  rw [List.findIdx?_eq_none_iff]
  exact forall₂_congr fun block _ => List.isEmpty_eq_false_iff

variable [Ranged α]

theorem start?_of_elements_ne_nil (h : block.elements ≠ []) (index : Nat) :
    ∃ start, block.start? = some start ∧ (key (block, index)).1 = start := by
  obtain ⟨element, elements, he⟩ := List.exists_cons_of_ne_nil h
  have hs : block.start? = some (Ranged.range element).start := by
    rw [RawBlock.start?, he]
    rfl
  exact ⟨_, hs, by rw [key, hs]; rfl⟩

/-- A block in source order comes no later than those that are not in front of it. -/
theorem precedes_of_split (hsplit : graph.sourceOrder = before ++ first :: behind)
    (hm : other ∈ graph.sourceOrder) (hn : other ∉ before) : precedes first other = true := by
  have hpairwise := graph.sourceOrder_pairwise
  rw [hsplit] at hm hpairwise
  rcases List.mem_cons.1 ((List.mem_append.1 hm).resolve_left hn) with rfl | hm
  · exact precedes_iff.2 (.inr ⟨rfl, Nat.le_refl _⟩)
  · exact (List.pairwise_cons.1 (List.pairwise_append.1 hpairwise).2.1).1 other hm

/-- Freezing a graph without empty blocks fails at its first unwired block in source order. -/
theorem first_of_freeze (hn : ∀ block ∈ graph.blocks, block.elements ≠ [])
    (h : graph.freeze = .error error) :
    ∃ before block index behind, graph.sourceOrder = before ++ (block, index) :: behind ∧
      (∀ earlier ∈ before, earlier.1.edge.Wired) ∧ ¬ block.edge.Wired ∧
      error = .unwiredGuard index := by
  simp only [freeze, findIdx?_isEmpty_eq_none.2 hn] at h
  rcases bind_eq_error.1 h with h | ⟨_, -, h⟩
  · obtain ⟨before, ⟨block, index⟩, behind, hsplit, hbefore, hfail⟩ := exists_split_of_mapM h
    rcases bind_eq_error.1 hfail with hfail | ⟨_, -, hfail⟩
    · obtain ⟨hw, rfl⟩ := freezeEdge_eq_error.1 hfail
      refine ⟨before, block, index, behind, hsplit, fun earlier hm => ?_, hw, rfl⟩
      by_contra hu
      obtain ⟨_, hok⟩ := hbefore earlier hm
      obtain ⟨_, he, -⟩ := bind_eq_ok.1 hok
      rw [freezeEdge_eq_error.2 ⟨hu, rfl⟩] at he
      cases he
    · cases hfail
  · cases h

theorem fault_of_freeze (h : graph.freeze = .error error) : graph.FreezeFault error := by
  cases hfind : graph.blocks.findIdx? (·.isEmpty) with
  | some index =>
    simp only [freeze, hfind] at h
    cases h
    obtain ⟨hlt, he, hfirst⟩ := List.findIdx?_eq_some_iff_getElem.1 hfind
    have hfree : ∀ i < index, ∀ earlier, graph.blocks[i]? = some earlier →
        earlier.elements ≠ [] := by
      intro i hi earlier hb hnil
      obtain ⟨_, rfl⟩ := List.getElem?_eq_some_iff.1 hb
      exact hfirst i hi (List.isEmpty_iff.2 hnil)
    exact .empty (List.getElem?_eq_getElem hlt) (List.isEmpty_iff.1 he) hfree
  | none =>
    have hn := findIdx?_isEmpty_eq_none.1 hfind
    obtain ⟨before, block, index, behind, hsplit, hbefore, hw, rfl⟩ := first_of_freeze hn h
    have hb : graph.blocks[index]? = some block := mem_sourceOrder.1 (by simp [hsplit])
    obtain ⟨start, hs, hkey⟩ :=
      start?_of_elements_ne_nil (hn block (List.mem_of_getElem? hb)) index
    refine .unwired hn hb hw hs fun i other start' hother hu hs' => ?_
    have hp := precedes_of_split hsplit (mem_sourceOrder.2 hother) fun hm => hu (hbefore _ hm)
    have hkey' : (key (other, i)).1 = start' := by simp [key, hs']
    rwa [precedes_iff, hkey, hkey'] at hp

theorem exists_freeze_error_iff :
    (∃ error, graph.freeze = .error error) ↔
      (∃ block ∈ graph.blocks, block.elements = []) ∨
        ∃ block ∈ graph.blocks, ¬ block.edge.Wired := by
  constructor
  · rintro ⟨error, h⟩
    cases fault_of_freeze h with
    | empty hb he => exact .inl ⟨_, List.mem_of_getElem? hb, he⟩
    | unwired _ hb hw => exact .inr ⟨_, List.mem_of_getElem? hb, hw⟩
  · intro h
    cases hf : graph.freeze with
    | error error => exact ⟨error, rfl⟩
    | ok frozen =>
      obtain ⟨hn, hblocks, -⟩ := freeze_eq_ok.1 hf
      rcases h with ⟨block, hm, he⟩ | ⟨block, hm, hw⟩
      · exact absurd (List.isEmpty_iff.2 he) (Bool.eq_false_iff.1 (hn block hm))
      · obtain ⟨index, hb⟩ := List.mem_iff_getElem?.1 hm
        obtain ⟨_, -, hok⟩ := getElem?_of_mapM hblocks (sourceOrder_idxOf hb)
        obtain ⟨_, he, -⟩ := bind_eq_ok.1 hok
        rw [freezeEdge_eq_error.2 ⟨hw, rfl⟩] at he
        cases he

theorem FreezeFault.unique (h : graph.FreezeFault error) (h' : graph.FreezeFault error') :
    error = error' := by
  cases h with
  | @empty index block hb he first =>
    cases h' with
    | @empty index' block' hb' he' first' =>
      rcases Nat.lt_trichotomy index index' with hlt | rfl | hlt
      · exact (first' index hlt block hb he).elim
      · rfl
      · exact (first index' hlt block' hb' he').elim
    | unwired free => exact (free block (List.mem_of_getElem? hb) he).elim
  | @unwired index start block free hb hw hs first =>
    cases h' with
    | @empty index' block' hb' he' => exact (free block' (List.mem_of_getElem? hb') he').elim
    | @unwired index' start' block' free' hb' hw' hs' first' =>
      have := first index' block' start' hb' hw' hs'
      have := first' index block start hb hw hs
      obtain rfl : index = index' := by omega
      rfl

theorem freeze_error_iff : graph.freeze = .error error ↔ graph.FreezeFault error := by
  refine ⟨fault_of_freeze, fun h => ?_⟩
  have hex : ∃ error, graph.freeze = .error error := by
    rw [exists_freeze_error_iff]
    cases h with
    | empty hb he => exact .inl ⟨_, List.mem_of_getElem? hb, he⟩
    | unwired _ hb hw => exact .inr ⟨_, List.mem_of_getElem? hb, hw⟩
  obtain ⟨error', he⟩ := hex
  rw [he, (fault_of_freeze he).unique h]

/-- Splicing fails just when an empty block does not simply lead on, or from a root the chain of
empty blocks never ends; freezing just when a block is empty or a guard has no body. The errors name
the blocks at fault. A cycle of empty blocks to which no root leads is left out. -/
theorem finish_faults (hr : graph.InRange) :
    ((∃ error, graph.splice = .error error) ↔
      (∃ block ∈ graph.blocks, ∃ complaint, block.Stuck complaint) ∨
        ∃ root ∈ graph.roots, graph.Endless root) ∧
    (∀ error, graph.splice = .error error → graph.SpliceFault error) ∧
    (∀ index, graph.splice ≠ .error (.emptyBlock index)) ∧
    ((∃ error, graph.freeze = .error error) ↔
      (∃ block ∈ graph.blocks, block.elements = []) ∨
        ∃ block ∈ graph.blocks, ¬ block.edge.Wired) ∧
    (∀ error, graph.freeze = .error error ↔ graph.FreezeFault error) ∧
    ((∀ block ∈ graph.blocks, ∀ complaint, ¬ block.Stuck complaint) →
      (∀ root ∈ graph.roots, ∀ index, ReflTransGen graph.Bypasses root (.block index) →
        ¬ graph.Circles index) →
      ∃ result, graph.splice = .ok result ∧
        result.blocks.map (·.elements) = (graph.blocks.map (·.elements)).filter (!·.isEmpty)) := by
  refine ⟨exists_splice_error_iff hr, fun error => fault_of_splice hr,
    fun index h => (fault_of_splice hr h).ne_emptyBlock index rfl,
    exists_freeze_error_iff, fun error => freeze_error_iff, fun free hc => ?_⟩
  cases h : graph.splice with
  | ok result => exact ⟨result, rfl, (splicedTo_of_splice hr h).elements⟩
  | error error =>
    cases fault_of_splice hr h with
    | stuck hb hs => exact (free _ (List.mem_of_getElem? hb) _ hs).elim
    | cycle _ hroots _ _ hp hcircles => exact (hc _ (by simp [hroots]) _ hp hcircles).elim

/-- A branch, one side of which leads into a cycle of empty blocks by way of another one, and a
guard without its body in front of it in the source. -/
def tailed : RawGraph Range :=
  ⟨[⟨[⟨6, 9⟩], .branch (some .exit) (.block 1)⟩, ⟨[], .jump (some (.block 2))⟩,
    ⟨[], .jump (some (.block 3))⟩, ⟨[], .jump (some (.block 2))⟩, ⟨[⟨0, 1⟩], .jump none⟩], .block 0⟩

/-- An empty block that leads to itself, and to which nothing leads. -/
def idle : RawGraph Range :=
  ⟨[⟨[], .jump (some (.block 0))⟩, ⟨[⟨2, 3⟩], .jump none⟩], .block 1⟩

theorem finish_faults_tailed :
    tailed.InRange ∧ tailed.splice = .error (.emptyCycle 2) ∧
      tailed.SpliceFault (.emptyCycle 2) ∧ tailed.freeze = .error (.emptyBlock 1) ∧
      tailed.FreezeFault (.emptyBlock 1) ∧
      idle.InRange ∧ ∃ result, idle.splice = .ok result ∧
        result.blocks.map (·.elements) = [[⟨2, 3⟩]] := by
  have hr : tailed.InRange := by decide
  have hs : tailed.splice = .error (.emptyCycle 2) := by decide +kernel
  have hf : tailed.freeze = .error (.emptyBlock 1) := by decide
  have hidle : idle.InRange := by decide
  have hfree : ∀ block ∈ idle.blocks, ∀ complaint, ¬ block.Stuck complaint := by
    exact defect?_eq_none_iff.1 (by decide)
  have hroots : ∀ root ∈ idle.roots, idle.Survives root := by
    intro root hm
    have hr : idle.roots = [.block 1] := by decide
    rw [hr, List.mem_singleton] at hm
    exact hm ▸ ⟨_, rfl, rfl⟩
  exact ⟨hr, hs, (finish_faults hr).2.1 _ hs, hf, ((finish_faults hr).2.2.2.2.1 _).1 hf, hidle,
    (finish_faults hidle).2.2.2.2.2 hfree
      fun root hm index hp => (Skips.arrive (hroots root hm)).not_circles hp⟩

end RawGraph

end FlowLint
