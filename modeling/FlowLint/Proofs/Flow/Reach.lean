import FlowLint.Flow.Reach
import Mathlib.Data.List.Basic
import Mathlib.Logic.Relation

namespace FlowLint.Graph
set_option autoImplicit true

variable {α : Type} {graph : Graph α}

def Path (graph : Graph α) : Vertex → Vertex → Prop :=
  Relation.ReflTransGen fun source target => target ∈ graph.successors source

theorem lt_size_of_mem_successors (h : target ∈ graph.successors (.block index)) :
    index < graph.size := by
  apply Nat.lt_of_not_le
  intro hle
  have hnone : graph.blocks[index]? = none := List.getElem?_eq_none hle
  rw [successors, hnone] at h
  cases h

/-- Whatever is found was still to be found, and a path leads to it from a pending vertex. -/
theorem path_of_mem_explore (h : index ∈ graph.explore fresh pending) :
    index ∈ fresh ∧ ∃ source ∈ pending, graph.Path source (.block index) := by
  fun_induction explore graph fresh pending with
  | case1 => cases h
  | case2 fresh pending ih =>
    obtain ⟨hf, source, hs, hp⟩ := ih h
    exact ⟨hf, source, List.mem_cons_of_mem _ hs, hp⟩
  | case3 fresh found pending hf ih =>
    rcases List.mem_cons.1 h with rfl | h
    · exact ⟨hf, _, List.mem_cons_self .., .refl⟩
    · obtain ⟨hfresh, source, hs, hp⟩ := ih h
      refine ⟨List.mem_of_mem_erase hfresh, ?_⟩
      rcases List.mem_append.1 hs with hs | hs
      · exact ⟨_, List.mem_cons_self .., .head hs hp⟩
      · exact ⟨source, List.mem_cons_of_mem _ hs, hp⟩
  | case4 fresh found pending hf ih =>
    obtain ⟨hfresh, source, hs, hp⟩ := ih h
    exact ⟨hfresh, source, List.mem_cons_of_mem _ hs, hp⟩

/-- The search closes the pending vertices under edges, among the blocks still to be found. -/
theorem explore_closed (graph : Graph α) (fresh : List Nat) (pending : List Vertex) :
    (∀ index ∈ fresh, .block index ∈ pending → index ∈ graph.explore fresh pending) ∧
      ∀ source ∈ graph.explore fresh pending, ∀ index ∈ fresh,
        .block index ∈ graph.successors (.block source) → index ∈ graph.explore fresh pending := by
  fun_induction explore graph fresh pending with
  | case1 => exact ⟨nofun, nofun⟩
  | case2 fresh pending ih =>
    obtain ⟨hpending, hclosed⟩ := ih
    refine ⟨fun index hf hm => hpending index hf ?_, hclosed⟩
    simpa using hm
  | case3 fresh found pending hf ih =>
    obtain ⟨hpending, hclosed⟩ := ih
    have hnext : ∀ index ∈ fresh, .block index ∈ graph.successors (.block found) ++ pending →
        index ∈ found :: graph.explore (fresh.erase found)
          (graph.successors (.block found) ++ pending) := by
      intro index hfresh hm
      by_cases he : index = found
      · exact he ▸ List.mem_cons_self ..
      · exact List.mem_cons_of_mem _ (hpending index ((List.mem_erase_of_ne he).2 hfresh) hm)
    constructor
    · intro index hfresh hm
      rcases List.mem_cons.1 hm with he | hm
      · exact Vertex.block.inj he ▸ List.mem_cons_self ..
      · exact hnext index hfresh (List.mem_append_right _ hm)
    · intro source hs index hfresh hm
      rcases List.mem_cons.1 hs with rfl | hs
      · exact hnext index hfresh (List.mem_append_left _ hm)
      · by_cases he : index = found
        · exact he ▸ List.mem_cons_self ..
        · have herase := (List.mem_erase_of_ne he).2 hfresh
          exact List.mem_cons_of_mem _ (hclosed source hs index herase hm)
  | case4 fresh found pending hf ih =>
    obtain ⟨hpending, hclosed⟩ := ih
    refine ⟨fun index hfresh hm => hpending index hfresh ?_, hclosed⟩
    rcases List.mem_cons.1 hm with he | hm
    · exact absurd (Vertex.block.inj he ▸ hfresh) hf
    · exact hm

/-- The search finds the blocks that a path leads to. -/
theorem mem_reachable : index ∈ graph.reachable source ↔
    index < graph.size ∧ graph.Path source (.block index) := by
  constructor
  · intro h
    obtain ⟨hf, start, hs, hp⟩ := path_of_mem_explore h
    obtain rfl := List.mem_singleton.1 hs
    exact ⟨List.mem_range.1 hf, hp⟩
  · rintro ⟨hlt, hp⟩
    obtain ⟨hpending, hclosed⟩ := graph.explore_closed (List.range graph.size) [source]
    generalize hv : Vertex.block index = vertex at hp
    induction hp generalizing index with
    | refl => exact hpending index (List.mem_range.2 hlt) (hv ▸ List.mem_singleton_self _)
    | @tail middle last _ hm ih =>
      subst hv
      cases middle with
      | exit => cases hm
      | block before =>
        exact hclosed before (ih (lt_size_of_mem_successors hm) rfl) index
          (List.mem_range.2 hlt) hm

end FlowLint.Graph
