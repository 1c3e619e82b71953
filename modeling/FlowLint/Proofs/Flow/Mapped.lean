import FlowLint.Flow.Splice
import FlowLint.Lint.Complexity
import FlowLint.Lint.UnreachableCode
import FlowLint.Proofs.Flow.Freeze

namespace FlowLint
set_option autoImplicit true

variable {α β : Type} {f : α → β}

namespace RawBlock

def map (f : α → β) (block : RawBlock α) : RawBlock β :=
  ⟨block.elements.map f, block.edge⟩

@[simp] theorem isEmpty_map (block : RawBlock α) : (block.map f).isEmpty = block.isEmpty :=
  List.isEmpty_map

theorem defect?_map (index : Nat) (block : RawBlock α) :
    (block.map f).defect? index = block.defect? index := by
  rw [defect?, isEmpty_map]
  rfl

end RawBlock

namespace RawGraph

def map (f : α → β) (graph : RawGraph α) : RawGraph β :=
  ⟨graph.blocks.map (RawBlock.map f), graph.start⟩

@[simp] theorem blocks_map (graph : RawGraph α) :
    (graph.map f).blocks = graph.blocks.map (RawBlock.map f) :=
  rfl

@[simp] theorem start_map (graph : RawGraph α) : (graph.map f).start = graph.start :=
  rfl

theorem defect?_map (graph : RawGraph α) : (graph.map f).defect? = graph.defect? := by
  rw [defect?, map, List.zipIdx_map, List.findSome?_map]
  congr 1
  funext ⟨block, index⟩
  exact block.defect?_map index

theorem bypass?_map (graph : RawGraph α) (index : Nat) :
    (graph.map f).bypass? index = graph.bypass? index := by
  rw [bypass?, map, List.getElem?_map, bypass?]
  rcases graph.blocks[index]? with _ | ⟨_ | _, _ | _⟩ <;> rfl

theorem skipEmpty_map (graph : RawGraph α) (fresh : List Nat) (vertex : Vertex) :
    (graph.map f).skipEmpty fresh vertex = graph.skipEmpty fresh vertex := by
  fun_induction skipEmpty graph fresh vertex with
  | case1 => rw [skipEmpty]
  | case2 fresh index hb => rw [skipEmpty, bypass?_map, hb]
  | case3 fresh index target hb hm ih => rw [skipEmpty, bypass?_map, hb, ← ih]; exact if_pos hm
  | case4 fresh index target hb hm => rw [skipEmpty, bypass?_map, hb]; exact if_neg hm

theorem rank_map (graph : RawGraph α) (index : Nat) :
    (graph.map f).rank index = graph.rank index := by
  rw [rank, map, ← List.map_take, List.countP_map, rank]
  congr 1
  funext block
  exact congrArg not block.isEmpty_map

theorem rank?_map (graph : RawGraph α) (index : Nat) :
    (graph.map f).rank? index = graph.rank? index := by
  rw [rank?, rank_map, map, List.getElem?_map, rank?]
  rcases graph.blocks[index]? with _ | block
  · rfl
  · rw [Option.map_some, Option.any_some, Option.any_some, block.isEmpty_map]

theorem image_map (graph : RawGraph α) : (graph.map f).image = graph.image := by
  funext vertex
  have hlength : (graph.map f).blocks.length = graph.blocks.length := List.length_map _
  simp only [image, hlength, skipEmpty_map, rank?_map]

theorem splice_map (graph : RawGraph α) : Carries id (map f) graph.splice (graph.map f).splice := by
  have hempty : (!·.isEmpty) ∘ RawBlock.map f = (!·.isEmpty : RawBlock α → Bool) := by
    funext block
    exact congrArg not block.isEmpty_map
  rw [splice, splice, defect?_map, image_map]
  cases graph.defect? with
  | some error => exact .error error
  | none =>
    simp only [blocks_map, start_map, List.all_map, List.filter_map, hempty]
    split
    · exact .ok graph
    · apply Carries.bind (f := List.map (RawBlock.map f))
      · exact .mapM fun block _ => .bind (.refl _) fun edge => .ok (RawBlock.mk block.elements edge)
      · exact fun blocks => .bind (.refl _) fun start => .ok (RawGraph.mk blocks start)

variable [Ranged α] [Ranged β]

/-- The elements of a graph start in the same order as those that replace them. -/
def KeepsOrder (f : α → β) (graph : RawGraph α) : Prop :=
  ∀ left ∈ graph.blocks, ∀ right ∈ graph.blocks, ∀ a ∈ left.elements, ∀ b ∈ right.elements,
    ((Ranged.range (f a)).start < (Ranged.range (f b)).start ↔
      (Ranged.range a).start < (Ranged.range b).start)

theorem precedes_map {graph : RawGraph α} (h : graph.KeepsOrder f)
    (hne : ∀ block ∈ graph.blocks, block.isEmpty = false) {left right : RawBlock α × Nat}
    (hl : left.1 ∈ graph.blocks) (hr : right.1 ∈ graph.blocks) :
    precedes (Prod.map (RawBlock.map f) id left) (Prod.map (RawBlock.map f) id right) =
      precedes left right := by
  obtain ⟨⟨_ | ⟨a, as⟩, edge⟩, i⟩ := left
  · cases hne _ hl
  obtain ⟨⟨_ | ⟨b, bs⟩, edge'⟩, j⟩ := right
  · cases hne _ hr
  have hlt := h _ hl _ hr a (List.mem_cons_self ..) b (List.mem_cons_self ..)
  have hgt := h _ hr _ hl b (List.mem_cons_self ..) a (List.mem_cons_self ..)
  rw [Bool.eq_iff_iff, precedes_iff, precedes_iff]
  simp only [key, Prod.map, id, RawBlock.map, RawBlock.start?, List.map_cons, List.head?_cons,
    Option.map_some, Option.getD_some]
  omega

theorem sourceOrder_map {graph : RawGraph α} (h : graph.KeepsOrder f)
    (hne : ∀ block ∈ graph.blocks, block.isEmpty = false) :
    (graph.map f).sourceOrder = graph.sourceOrder.map (Prod.map (RawBlock.map f) id) := by
  rw [sourceOrder, blocks_map, List.zipIdx_map, sourceOrder]
  symm
  apply List.map_mergeSort
  intro left hl right hr
  exact (precedes_map h hne (List.fst_mem_of_mem_zipIdx hl)
    (List.fst_mem_of_mem_zipIdx hr)).symm

end RawGraph

namespace BasicBlock

def map (f : α → β) (block : BasicBlock α) : BasicBlock β :=
  ⟨block.elements.map f, block.edge⟩

end BasicBlock

def Graph.map (f : α → β) (graph : Graph α) : Graph β :=
  ⟨graph.blocks.map (BasicBlock.map f), graph.start⟩

/-- Freezing leaves the elements as they are, and puts them in the same order. -/
theorem RawGraph.freeze_map [Ranged α] [Ranged β] {graph : RawGraph α} (h : graph.KeepsOrder f) :
    Carries id (Graph.map f) graph.freeze (graph.map f).freeze := by
  have hempty : (·.isEmpty) ∘ RawBlock.map f = (·.isEmpty : RawBlock α → Bool) := by
    funext block
    exact block.isEmpty_map
  have hnumber : renumber (graph.sourceOrder.map (Prod.map (RawBlock.map f) id)) =
      renumber graph.sourceOrder := by
    have hnumbers : (graph.sourceOrder.map (Prod.map (RawBlock.map f) id)).map (·.2) =
        graph.sourceOrder.map (·.2) := by
      rw [List.map_map]
      rfl
    funext vertex
    cases vertex with
    | exit => rfl
    | block index => rw [renumber, hnumbers, renumber]
  rw [freeze, freeze, blocks_map, List.findIdx?_map, hempty]
  cases hfind : graph.blocks.findIdx? (·.isEmpty) with
  | some index => exact .error (GraphError.emptyBlock index)
  | none =>
    dsimp only
    rw [sourceOrder_map h (List.findIdx?_eq_none_iff.1 hfind), hnumber]
    apply Carries.bind (f := List.map (BasicBlock.map f))
    · apply Carries.mapM
      rintro ⟨block, index⟩ -
      exact .bind (.refl _) fun edge => .ok (BasicBlock.mk block.elements edge)
    · exact fun blocks => .ok (Graph.mk blocks (renumber graph.sourceOrder graph.start))

namespace Graph

variable (graph : Graph α)

@[simp] theorem size_map : (graph.map f).size = graph.size :=
  List.length_map _

@[simp] theorem start_map : (graph.map f).start = graph.start :=
  rfl

theorem getElem?_blocks_map (index : Nat) :
    (graph.map f).blocks[index]? = graph.blocks[index]?.map (BasicBlock.map f) :=
  List.getElem?_map

@[simp] theorem successors_map : (graph.map f).successors = graph.successors := by
  funext vertex
  cases vertex with
  | exit => rfl
  | block index =>
    rw [successors, getElem?_blocks_map, successors]
    cases graph.blocks[index]? <;> rfl

@[simp] theorem predecessors_map : (graph.map f).predecessors = graph.predecessors := by
  funext vertex
  have hfollow : (graph.map f).follow = graph.follow := by
    funext lists index
    rw [follow, successors_map, follow]
  rw [predecessors, predecessorLists, size_map, hfollow, predecessors, predecessorLists]

theorem explore_map (fresh : List Nat) (pending : List Vertex) :
    (graph.map f).explore fresh pending = graph.explore fresh pending := by
  fun_induction explore graph fresh pending with
  | case1 => rw [explore]
  | case2 fresh pending ih => rw [explore, ih]
  | case3 fresh index pending hm ih => rw [explore, if_pos hm, successors_map, ih]
  | case4 fresh index pending hm ih => rw [explore, if_neg hm, ih]

@[simp] theorem reachable_map : (graph.map f).reachable = graph.reachable := by
  funext source
  rw [reachable, size_map, explore_map, reachable]

theorem uncovered_map (covered heads : List Nat) :
    (graph.map f).uncovered covered heads = graph.uncovered covered heads := by
  fun_induction uncovered graph covered heads with
  | case1 => rw [uncovered]
  | case2 covered head heads hm ih => rw [uncovered, if_pos hm, ih]
  | case3 covered head heads hm ih => rw [uncovered, if_neg hm, reachable_map, ih]

theorem deadHeads_map : (graph.map f).deadHeads = graph.deadHeads := by
  simp only [deadHeads, size_map, predecessors_map, start_map, reachable_map, uncovered_map]

theorem complexity_map : (graph.map f).complexity = graph.complexity := by
  have hedges : (graph.map f).edgeCount = graph.edgeCount := by
    rw [edgeCount, map, List.flatMap_map, edgeCount]
    rfl
  rw [complexity, hedges, size_map, complexity]

end Graph

end FlowLint
