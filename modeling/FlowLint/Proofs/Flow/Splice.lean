import FlowLint.Flow.Splice
import FlowLint.Proofs.Flow.Contraction
import FlowLint.Proofs.Success

namespace FlowLint
set_option autoImplicit true

theorem getElem?_filter_countP {items : List α} {i : Nat} (h : items[i]? = some a)
    (hp : p a = true) :
    (items.filter p)[(items.take i).countP p]? = some a := by
  induction items generalizing i with
  | nil => simp at h
  | cons b items ih =>
    cases i with
    | zero =>
      simp only [List.getElem?_cons_zero, Option.some.injEq] at h
      subst h
      simp [hp]
    | succ i =>
      have hi := ih h
      by_cases hb : p b = true
      · simpa [hb] using hi
      · simpa [hb] using hi

theorem countP_take_lt {items : List α} {i j : Nat} (h : items[i]? = some a)
    (hp : p a = true) (hij : i < j) :
    (items.take i).countP p < (items.take j).countP p := by
  have hs : (items.take (i + 1)).countP p = (items.take i).countP p + 1 := by
    rw [List.take_add_one, h, List.countP_append]
    simp [hp]
  have hle : (items.take (i + 1)).countP p ≤ (items.take j).countP p :=
    (List.take_prefix_take_left hij).sublist.countP_le
  omega

theorem exists_countP_take {items : List α} (h : j < (items.filter p).length) :
    ∃ i a, items[i]? = some a ∧ p a = true ∧ (items.take i).countP p = j := by
  induction items generalizing j with
  | nil => simp at h
  | cons b items ih =>
    by_cases hb : p b = true
    · cases j with
      | zero => exact ⟨0, b, rfl, hb, rfl⟩
      | succ j =>
        rw [List.filter_cons_of_pos hb] at h
        obtain ⟨i, a, hi, ha, hj⟩ := ih (Nat.lt_of_succ_lt_succ h)
        exact ⟨i + 1, a, hi, ha, by simp [hb, hj]⟩
    · rw [List.filter_cons_of_neg hb] at h
      obtain ⟨i, a, hi, ha, hj⟩ := ih h
      exact ⟨i + 1, a, hi, ha, by simp [hb, hj]⟩

theorem countP_take_eq_self {items : List α} (h : ∀ a ∈ items, p a = true)
    (hn : n ≤ items.length) : (items.take n).countP p = n := by
  rw [List.countP_eq_length.2 fun a ha => h a (List.mem_of_mem_take ha), List.length_take]
  omega

namespace RawEdge

theorem mapTargets_eq_self {f : Vertex → Except GraphError Vertex} {edge : RawEdge}
    (hf : ∀ target ∈ edge.targets, f target = .ok target) : edge.mapTargets f = .ok edge := by
  cases edge with
  | jump target =>
    cases target with
    | none => rfl
    | some target =>
      have ht := hf target (by simp [targets, ways])
      simp [mapTargets, ht, bind, Except.bind, pure, Except.pure]
  | branch onTrue onFalse =>
    cases onTrue with
    | none =>
      have ho := hf onFalse (by simp [targets, ways])
      simp [mapTargets, ho, bind, Except.bind, pure, Except.pure]
    | some onTrue =>
      have ht := hf onTrue (by simp [targets, ways])
      have ho := hf onFalse (by simp [targets, ways])
      simp [mapTargets, ht, ho, bind, Except.bind, pure, Except.pure]

/-- The targets of one edge stand for those of another, side by side. -/
inductive Redirects (stands : Vertex → Vertex → Prop) : RawEdge → RawEdge → Prop
  | unwiredJump : Redirects stands (.jump none) (.jump none)
  | jump (h : stands target target') : Redirects stands (.jump (some target)) (.jump (some target'))
  | unwiredBranch (hf : stands onFalse onFalse') :
      Redirects stands (.branch none onFalse) (.branch none onFalse')
  | branch (ht : stands onTrue onTrue') (hf : stands onFalse onFalse') :
      Redirects stands (.branch (some onTrue) onFalse) (.branch (some onTrue') onFalse')

theorem redirects_of_mapTargets {f : Vertex → Except GraphError Vertex} {edge edge' : RawEdge}
    (h : edge.mapTargets f = .ok edge')
    (hf : ∀ target ∈ edge.targets, ∀ target', f target = .ok target' → stands target target') :
    edge.Redirects stands edge' := by
  cases edge with
  | jump target =>
    cases target with
    | none =>
      cases h
      exact .unwiredJump
    | some target =>
      obtain ⟨target', ht, h⟩ := bind_eq_ok.1 h
      cases h
      exact .jump (hf _ (by simp [targets, ways]) _ ht)
  | branch onTrue onFalse =>
    cases onTrue with
    | none =>
      obtain ⟨onFalse', ho, h⟩ := bind_eq_ok.1 h
      cases h
      exact .unwiredBranch (hf _ (by simp [targets, ways]) _ ho)
    | some onTrue =>
      obtain ⟨onTrue', ht, h⟩ := bind_eq_ok.1 h
      obtain ⟨onFalse', ho, h⟩ := bind_eq_ok.1 h
      cases h
      exact .branch (hf _ (by simp [targets, ways]) _ ht) (hf _ (by simp [targets, ways]) _ ho)

theorem Redirects.ways (h : Redirects stands edge edge') :
    List.Forall₂ (fun way way' => way.1 = way'.1 ∧ stands way.2 way'.2) edge.ways edge'.ways := by
  cases h with
  | unwiredJump => exact .nil
  | jump h => exact .cons ⟨rfl, h⟩ .nil
  | unwiredBranch hf => exact .cons ⟨rfl, hf⟩ .nil
  | branch ht hf => exact .cons ⟨rfl, ht⟩ (.cons ⟨rfl, hf⟩ .nil)

end RawEdge

namespace RawGraph

variable {α : Type}

/-- Whether a vertex is the exit or a block with elements. -/
def Survives (graph : RawGraph α) : Vertex → Prop
  | .block index => ∃ block, graph.blocks[index]? = some block ∧ block.isEmpty = false
  | .exit => True

/-- The chain of empty blocks from a vertex ends at another. -/
inductive Skips (graph : RawGraph α) : Vertex → Vertex → Prop
  | arrive {vertex : Vertex} (h : graph.Survives vertex) : graph.Skips vertex vertex
  | bypass {index : Nat} {next target : Vertex}
      (h : graph.blocks[index]? = some ⟨[], .jump (some next)⟩) (hs : graph.Skips next target) :
      graph.Skips (.block index) target

variable {graph result : RawGraph α} {index : Nat} {vertex source target target' : Vertex}
  {block : RawBlock α}

theorem Survives.not_empty (h : graph.Survives (.block index)) :
    graph.blocks[index]? ≠ some ⟨[], edge⟩ := by
  intro he
  obtain ⟨block, hb, hn⟩ := h
  rw [he] at hb
  cases hb
  cases hn

theorem Survives.lt_length (h : graph.Survives (.block index)) : index < graph.blocks.length := by
  obtain ⟨block, hb, -⟩ := h
  exact (List.getElem?_eq_some_iff.1 hb).1

theorem Skips.survives (h : graph.Skips source target) : graph.Survives target := by
  induction h with
  | arrive h => exact h
  | bypass _ _ ih => exact ih

theorem Skips.eq_of_survives (h : graph.Skips source target) (hs : graph.Survives source) :
    source = target := by
  cases h with
  | arrive => rfl
  | bypass h => exact (hs.not_empty h).elim

theorem Skips.unique (h : graph.Skips source target) (h' : graph.Skips source target') :
    target = target' := by
  induction h with
  | arrive hs => exact h'.eq_of_survives hs
  | bypass hb _ ih =>
    cases h' with
    | arrive hs => exact (hs.not_empty hb).elim
    | bypass hb' hs' =>
      rw [hb] at hb'
      cases hb'
      exact ih hs'

theorem defect?_eq_none :
    graph.defect? = none ↔
      ∀ (index : Nat) (block : RawBlock α), graph.blocks[index]? = some block →
        block.defect? index = none := by
  simp only [defect?, List.findSome?_eq_none_iff, List.mem_zipIdx_iff_getElem?, Prod.forall]
  exact ⟨fun h index block hb => h block index hb, fun h block index hb => h index block hb⟩

theorem bypass?_eq_some :
    graph.bypass? index = some next ↔ graph.blocks[index]? = some ⟨[], .jump (some next)⟩ := by
  simp only [bypass?]
  split
  · next target hb => simp [hb]
  · next hb =>
    simp only [reduceCtorEq, false_iff]
    intro he
    exact hb _ he

/-- Without defects, a block that is not bypassed has elements. -/
theorem survives_of_bypass? (hd : graph.defect? = none) (hi : index < graph.blocks.length)
    (h : graph.bypass? index = none) : graph.Survives (.block index) := by
  have ⟨⟨elements, edge⟩, hb⟩ : ∃ block, graph.blocks[index]? = some block :=
    ⟨_, List.getElem?_eq_getElem hi⟩
  refine ⟨_, hb, ?_⟩
  have hdb := defect?_eq_none.1 hd _ _ hb
  cases elements with
  | cons => rfl
  | nil =>
    cases edge with
    | branch => simp [RawBlock.defect?, RawBlock.isEmpty] at hdb
    | jump target =>
      cases target with
      | none => simp [RawBlock.defect?, RawBlock.isEmpty] at hdb
      | some target =>
        rw [bypass?_eq_some.2 hb] at h
        cases h

theorem InRange.within (hr : graph.InRange) (hb : graph.blocks[index]? = some block)
    (ht : target ∈ block.edge.targets) : target.Within graph.blocks.length :=
  hr.1 block (List.mem_of_getElem? hb) target ht

theorem skips_of_skipEmpty (hd : graph.defect? = none) (hr : graph.InRange)
    (hv : vertex.Within graph.blocks.length) (h : graph.skipEmpty fresh vertex = .ok target) :
    graph.Skips vertex target := by
  fun_induction skipEmpty graph fresh vertex with
  | case1 =>
    cases h
    exact .arrive trivial
  | case2 fresh index hb =>
    cases h
    exact .arrive (survives_of_bypass? hd hv hb)
  | case3 fresh index next hb hf ih =>
    rw [bypass?_eq_some] at hb
    exact .bypass hb (ih (hr.within hb (by simp [RawEdge.targets, RawEdge.ways])) h)
  | case4 => cases h

theorem rank?_of_survives (h : graph.Survives (.block index)) :
    graph.rank? index = some (graph.rank index) := by
  obtain ⟨block, hb, hn⟩ := h
  exact if_pos (by rw [hb, Option.any_some, hn]; rfl)

theorem image_of_survives
    (h : graph.skipEmpty (List.range graph.blocks.length) vertex = .ok target)
    (hs : graph.Survives target) : graph.image vertex = .ok (target.map graph.rank) := by
  rw [image, h]
  cases target with
  | exit => rfl
  | block index =>
    simp only [bind, Except.bind, rank?_of_survives hs]
    rfl

/-- A chain ends outside of the empty blocks, so that its end has a new number. -/
theorem image_of_skipEmpty (hd : graph.defect? = none) (hr : graph.InRange)
    (hv : vertex.Within graph.blocks.length)
    (h : graph.skipEmpty (List.range graph.blocks.length) vertex = .ok target) :
    graph.image vertex = .ok (target.map graph.rank) :=
  image_of_survives h (skips_of_skipEmpty hd hr hv h).survives

/-- A vertex of a spliced graph stands for the end of a chain of empty blocks. -/
def BypassesTo (graph : RawGraph α) (place : Nat → Nat) (source target : Vertex) : Prop :=
  ∃ survivor, graph.Skips source survivor ∧ survivor.map place = target

theorem bypassesTo_of_image (hd : graph.defect? = none) (hr : graph.InRange)
    (hv : vertex.Within graph.blocks.length) (h : graph.image vertex = .ok target) :
    graph.BypassesTo graph.rank vertex target := by
  obtain ⟨survivor, hs, -⟩ := bind_eq_ok.1 h
  refine ⟨survivor, skips_of_skipEmpty hd hr hv hs, ?_⟩
  exact Except.ok.inj ((image_of_skipEmpty hd hr hv hs).symm.trans h)

theorem image_eq_self (ha : ∀ block ∈ graph.blocks, (!block.isEmpty) = true)
    (hv : vertex.Within graph.blocks.length) : graph.image vertex = .ok vertex := by
  cases vertex with
  | exit =>
    have hs : graph.Survives .exit := trivial
    exact image_of_survives (by rw [skipEmpty]) hs
  | block index =>
    have hb : graph.bypass? index = none := by
      rw [Option.eq_none_iff_forall_ne_some]
      intro next he
      have hm := List.mem_of_getElem? (bypass?_eq_some.1 he)
      cases ha _ hm
    have hskip : graph.skipEmpty (List.range graph.blocks.length) (.block index) =
        .ok (.block index) := by
      rw [skipEmpty]
      split
      · rfl
      · next he => rw [hb] at he; cases he
    have hs : graph.Survives (.block index) :=
      ⟨_, List.getElem?_eq_getElem hv, by simpa using ha _ (List.getElem_mem hv)⟩
    rw [image_of_survives hskip hs, Vertex.map, rank, countP_take_eq_self ha (Nat.le_of_lt hv)]

/-- A graph is spliced block by block, also when nothing is empty. -/
theorem splice_eq_ok (hr : graph.InRange) :
    graph.splice = .ok result ↔ graph.defect? = none ∧
      ((graph.blocks.filter (!·.isEmpty)).mapM fun block => do
        let edge ← block.edge.mapTargets graph.image
        return { block with edge }) = .ok result.blocks ∧
      graph.image graph.start = .ok result.start := by
  obtain ⟨blocks, start⟩ := result
  rw [splice]
  cases hd : graph.defect? with
  | some error => simp [throw, throwThe, MonadExceptOf.throw]
  | none =>
    simp only [true_and]
    split
    · next ha =>
      rw [List.all_eq_true] at ha
      have hblocks : graph.blocks.mapM (fun block => do
          let edge ← block.edge.mapTargets graph.image
          return { block with edge }) = .ok graph.blocks := by
        rw [mapM_eq_ok, List.forall₂_same]
        intro block hb
        have he : block.edge.mapTargets graph.image = .ok block.edge :=
          RawEdge.mapTargets_eq_self fun target ht => image_eq_self ha (hr.1 block hb target ht)
        simp [he, bind, Except.bind, pure, Except.pure]
      rw [List.filter_eq_self.2 ha, hblocks, image_eq_self ha hr.2, pure_eq_ok]
      obtain ⟨_, _⟩ := graph
      simp
    · simp only [bind_eq_ok, pure_eq_ok, mk.injEq]
      exact ⟨fun ⟨_, hb, _, hs, h₁, h₂⟩ => ⟨h₁ ▸ hb, h₂ ▸ hs⟩,
        fun ⟨hb, hs⟩ => ⟨_, hb, _, hs, rfl, rfl⟩⟩

/-- A graph is another one without its empty blocks; `place` gives the new numbers of blocks. -/
structure SplicedTo (graph result : RawGraph α) (place : Nat → Nat) : Prop where
  elements : result.blocks.map (·.elements) = (graph.blocks.map (·.elements)).filter (!·.isEmpty)
  place_lt : ∀ i j, graph.Survives (.block i) → graph.Survives (.block j) → i < j →
    place i < place j
  onto : ∀ j < result.blocks.length, ∃ i, graph.Survives (.block i) ∧ place i = j
  block : ∀ index block, graph.blocks[index]? = some block → block.isEmpty = false →
    ∃ edge, result.blocks[place index]? = some ⟨block.elements, edge⟩ ∧
      block.edge.Redirects (graph.BypassesTo place) edge
  start : graph.BypassesTo place graph.start result.start

theorem splicedTo_of_splice (hr : graph.InRange) (h : graph.splice = .ok result) :
    graph.SplicedTo result graph.rank := by
  obtain ⟨hd, hb, hs⟩ := (splice_eq_ok hr).1 h
  have hf := mapM_eq_ok.1 hb
  have hstands : ∀ block ∈ graph.blocks, ∀ edge, block.edge.mapTargets graph.image = .ok edge →
      block.edge.Redirects (graph.BypassesTo graph.rank) edge := fun block hm edge he =>
    RawEdge.redirects_of_mapTargets he fun target ht target' ht' =>
      bypassesTo_of_image hd hr (hr.1 block hm target ht) ht'
  refine ⟨?_, ?_, ?_, ?_, bypassesTo_of_image hd hr hr.2 hs⟩
  · rw [List.filter_map]
    have he : List.Forall₂ (· = ·) ((graph.blocks.filter (!·.isEmpty)).map (·.elements))
        (result.blocks.map (·.elements)) := by
      rw [List.forall₂_map_left_iff, List.forall₂_map_right_iff]
      refine hf.imp fun block block' hb' => ?_
      obtain ⟨edge, -, he⟩ := bind_eq_ok.1 hb'
      rw [← pure_eq_ok.1 he]
    exact (List.forall₂_eq_eq_eq ▸ he).symm
  · rintro i j ⟨block, hi, hn⟩ - hij
    exact countP_take_lt hi (by simp [hn]) hij
  · intro j hj
    rw [← hf.length_eq] at hj
    obtain ⟨i, block, hi, hn, hp⟩ := exists_countP_take hj
    exact ⟨i, ⟨block, hi, by simpa using hn⟩, hp⟩
  · intro index block hi hn
    have hp := getElem?_filter_countP (p := (!·.isEmpty)) hi (by simp [hn])
    obtain ⟨block', hb', hx⟩ := getElem?_of_mapM hb hp
    obtain ⟨edge, he, hx⟩ := bind_eq_ok.1 hx
    rw [← pure_eq_ok.1 hx] at hb'
    exact ⟨edge, hb', hstands block (List.mem_of_getElem? hi) edge he⟩

variable {place : Nat → Nat}

theorem SplicedTo.map_ne_empty (h : graph.SplicedTo result place) :
    ∀ block ∈ result.blocks, block.isEmpty = false := by
  intro block hb
  have hm : block.elements ∈ (graph.blocks.map (·.elements)).filter (!·.isEmpty) := by
    rw [← h.elements]
    exact List.mem_map_of_mem hb
  simpa [RawBlock.isEmpty] using (List.mem_filter.1 hm).2

theorem SplicedTo.chart_elements (h : graph.SplicedTo result place) (hv : graph.Survives vertex) :
    result.chart.elements (vertex.map place) = graph.chart.elements vertex := by
  cases vertex with
  | exit => rfl
  | block index =>
    obtain ⟨block, hb, hn⟩ := hv
    obtain ⟨edge, he, -⟩ := h.block index block hb hn
    simp [chart, Vertex.map, hb, he]

theorem SplicedTo.chart_ways (h : graph.SplicedTo result place) (hv : graph.Survives vertex) :
    List.Forall₂ (fun way way' => way.1 = way'.1 ∧ graph.BypassesTo place way.2 way'.2)
      (graph.chart.ways vertex) (result.chart.ways (vertex.map place)) := by
  cases vertex with
  | exit => exact .nil
  | block index =>
    obtain ⟨block, hb, hn⟩ := hv
    obtain ⟨edge, he, hr⟩ := h.block index block hb hn
    simpa [chart, Vertex.map, hb, he] using hr.ways

/-- A survivor and its new number. -/
def Places (graph : RawGraph α) (place : Nat → Nat) (source target : Vertex) : Prop :=
  graph.Survives source ∧ source.map place = target

theorem Skips.slides (h : graph.Skips source target) : graph.chart.Slides source target := by
  induction h with
  | arrive => exact .refl
  | bypass hb _ ih => exact .step (by simp [chart, hb]) (by simp [chart, hb, RawEdge.ways]) ih

theorem Survives.eq_of_slides (h : graph.Survives source) (hs : graph.chart.Slides source target) :
    source = target := by
  cases hs with
  | refl => rfl
  | step he hw =>
    cases source with
    | exit => simp [chart] at hw
    | block index =>
      obtain ⟨block, hb, hn⟩ := h
      simp only [chart, hb, Option.elim_some] at he
      simp [RawBlock.isEmpty, he] at hn

theorem SplicedTo.place_injective (h : graph.SplicedTo result place) {i j : Nat}
    (hi : graph.Survives (.block i)) (hj : graph.Survives (.block j)) (hp : place i = place j) :
    i = j := by
  rcases Nat.lt_trichotomy i j with hlt | heq | hlt
  · have := h.place_lt i j hi hj hlt
    omega
  · exact heq
  · have := h.place_lt j i hj hi hlt
    omega

theorem SplicedTo.places_biUnique (h : graph.SplicedTo result place) :
    Relator.BiUnique (graph.Places place) := by
  refine ⟨?_, fun _ _ _ hu hv => hu.2.symm.trans hv.2⟩
  rintro u v _ ⟨hu, rfl⟩ ⟨hv, hp⟩
  cases u with
  | exit => cases v with
    | exit => rfl
    | block j => cases hp
  | block i => cases v with
    | exit => cases hp
    | block j =>
      rw [Vertex.map, Vertex.map, Vertex.block.injEq] at hp
      rw [h.place_injective hu hv hp.symm]

theorem SplicedTo.contracts (h : graph.SplicedTo result place) :
    graph.chart.Contracts result.chart (graph.Places place) where
  exit := by
    rintro u _ ⟨-, rfl⟩
    cases u <;> simp [Vertex.map]
  elements := by
    rintro u _ ⟨hu, rfl⟩
    exact (h.chart_elements hu).symm
  ways := by
    rintro u _ ⟨hu, rfl⟩
    refine (h.chart_ways hu).imp fun way way' ⟨hside, survivor, hs, hp⟩ => ?_
    exact ⟨hside, survivor, hs.slides, hs.survives, hp⟩

theorem SplicedTo.reads_start_iff (h : graph.SplicedTo result place) :
    graph.chart.Reads graph.start word ending ↔ result.chart.Reads result.start word ending := by
  obtain ⟨survivor, hskip, hp⟩ := h.start
  exact h.contracts.reads_iff hskip.slides ⟨hskip.survives, hp⟩

theorem BypassesTo.within (h : graph.SplicedTo result place)
    (hb : graph.BypassesTo place source target) : target.Within result.blocks.length := by
  obtain ⟨survivor, hskip, rfl⟩ := hb
  cases survivor with
  | exit => trivial
  | block index =>
    obtain ⟨block, hi, hn⟩ := hskip.survives
    obtain ⟨edge, he, -⟩ := h.block index block hi hn
    exact (List.getElem?_eq_some_iff.1 he).1

/-- Every block that is left was there before, with an edge that may have passed empty blocks. -/
theorem SplicedTo.exists_block (h : graph.SplicedTo result place) (hm : block ∈ result.blocks) :
    ∃ source ∈ graph.blocks, source.elements = block.elements ∧
      source.edge.Redirects (graph.BypassesTo place) block.edge := by
  obtain ⟨j, hj⟩ := List.mem_iff_getElem?.1 hm
  obtain ⟨i, ⟨source, hi, hn⟩, rfl⟩ := h.onto j (List.getElem?_eq_some_iff.1 hj).1
  obtain ⟨edge, he, hr⟩ := h.block i source hi hn
  rw [he, Option.some.injEq] at hj
  subst hj
  exact ⟨source, List.mem_of_getElem? hi, rfl, hr⟩

theorem SplicedTo.inRange (h : graph.SplicedTo result place) : result.InRange := by
  refine ⟨fun block hm target ht => ?_, h.start.within h⟩
  obtain ⟨source, -, -, hr⟩ := h.exists_block hm
  obtain ⟨side, hw⟩ := RawEdge.mem_targets.1 ht
  obtain ⟨way, -, -, hb⟩ := exists_mem_of_forall₂ hr.ways.flip hw
  exact hb.within h

theorem splice_eq_self (h : ∀ block ∈ graph.blocks, block.isEmpty = false) :
    graph.splice = .ok graph := by
  have hd : graph.defect? = none := by
    rw [defect?_eq_none]
    intro index block hb
    simp [RawBlock.defect?, h block (List.mem_of_getElem? hb)]
  have ha : graph.blocks.all (!·.isEmpty) = true := by
    rw [List.all_eq_true]
    intro block hb
    simp [h block hb]
  simp [splice, hd, ha, pure, Except.pure]

open Relation in
/-- Splicing keeps exactly the blocks with elements, in order, and moves every target and the start
to the end of its chain of empty blocks. What remains is reached as before, the same words are read
from the start, and there is nothing left to splice. -/
theorem splice_preserves (hr : graph.InRange) (h : graph.splice = .ok result) :
    (∃ place, graph.SplicedTo result place ∧
      ∀ u v, graph.Survives u → graph.Survives v →
        (ReflTransGen graph.chart.Leads u v ↔
          ReflTransGen result.chart.Leads (u.map place) (v.map place)) ∧
        (TransGen graph.chart.Leads u v ↔
          TransGen result.chart.Leads (u.map place) (v.map place))) ∧
    (∀ block ∈ result.blocks, block.isEmpty = false) ∧
    (∀ word ending,
      graph.chart.Reads graph.start word ending ↔ result.chart.Reads result.start word ending) ∧
    result.splice = .ok result := by
  have hs := splicedTo_of_splice hr h
  have hc := hs.contracts
  have hn := hs.map_ne_empty
  refine ⟨⟨graph.rank, hs, fun u v hu hv => ?_⟩, hn, fun word ending => hs.reads_start_iff,
    splice_eq_self hn⟩
  · have still : ∀ u v u', graph.Places graph.rank u v → graph.chart.Slides u u' → u = u' :=
      fun _ _ _ hp hs => hp.1.eq_of_slides hs
    exact ⟨hc.reaches_iff hs.places_biUnique still ⟨hu, rfl⟩ ⟨hv, rfl⟩,
      hc.transGen_iff hs.places_biUnique still ⟨hu, rfl⟩ ⟨hv, rfl⟩⟩

/-- A graph whose start, whose branch and whose last block but one lead into chains of empty
blocks. -/
def chains : RawGraph Range :=
  ⟨[⟨[], .jump (some (.block 1))⟩, ⟨[], .jump (some (.block 2))⟩,
    ⟨[⟨4, 5⟩], .branch (some (.block 3)) (.block 0)⟩, ⟨[], .jump (some (.block 4))⟩,
    ⟨[⟨7, 9⟩], .jump none⟩], .block 0⟩

def shortened : RawGraph Range :=
  ⟨[⟨[⟨4, 5⟩], .branch (some (.block 1)) (.block 0)⟩, ⟨[⟨7, 9⟩], .jump none⟩], .block 0⟩

theorem splice_preserves_chains :
    chains.InRange ∧ chains.splice = .ok shortened ∧
      (∀ word ending, chains.chart.Reads chains.start word ending ↔
        shortened.chart.Reads shortened.start word ending) ∧
      shortened.splice = .ok shortened := by
  have hr : chains.InRange := by decide
  have h : chains.splice = .ok shortened := by decide +kernel
  exact ⟨hr, h, (splice_preserves hr h).2.2⟩

end RawGraph

end FlowLint
