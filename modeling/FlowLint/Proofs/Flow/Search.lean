import FlowLint.Proofs.Flow.Freeze
import FlowLint.Proofs.Flow.Reach
import Mathlib.Logic.Function.Iterate

/-!
The search of a finished graph turn by turn, with its marks and its stack. Every turn does away with
a vertex to be looked at or with an unmarked block, so the search halts; what it has marked then are
the blocks that paths lead to.
-/
namespace FlowLint
set_option autoImplicit true

namespace Graph

variable {α : Type} {graph : Graph α}

/-- A search under way: whether each block has been marked, and the vertices that are still to be
looked at, the next one first. -/
structure Search where
  marked : List Bool
  stack : List Vertex

namespace Search

/-- Before its first turn a search has marked nothing. -/
def begin (graph : Graph α) (source : Vertex) : Search :=
  ⟨List.replicate graph.size false, [source]⟩

/-- One turn of a search. A block that is met for the first time is marked, and its successors are
put on the stack, the last one on top. -/
def turn (graph : Graph α) (search : Search) : Search :=
  match search.stack with
  | [] => search
  | .exit :: stack => ⟨search.marked, stack⟩
  | .block index :: stack =>
    if search.marked[index]? = some false then
      ⟨search.marked.set index true, (graph.successors (.block index)).reverse ++ stack⟩
    else
      ⟨search.marked, stack⟩

/-- A bound on the turns that are left. -/
def left (search : Search) : Nat :=
  2 * search.marked.count false + search.stack.length

variable {search : Search} {source vertex : Vertex} {index : Nat}

theorem length_successors_le (graph : Graph α) (vertex : Vertex) :
    (graph.successors vertex).length ≤ 2 := by
  have hedge (edge : Edge) : edge.successors.length ≤ 2 := by
    cases edge with
    | always => simp [Edge.successors]
    | branch =>
      rw [Edge.successors]
      split <;> [simp; split <;> simp]
  cases vertex with
  | exit => simp [successors]
  | block index =>
    rw [successors]
    cases graph.blocks[index]? with
    | none => simp
    | some block => exact hedge block.edge

theorem count_set_of_unmarked {marked : List Bool} (h : marked[index]? = some false) :
    (marked.set index true).count false + 1 = marked.count false := by
  obtain ⟨hlt, hf⟩ := List.getElem?_eq_some_iff.1 h
  have hpos : 0 < marked.count false := List.count_pos_iff.2 (hf ▸ List.getElem_mem hlt)
  rw [List.count_set hlt, hf]
  simp
  omega

theorem left_turn (graph : Graph α) (h : search.stack ≠ []) :
    (search.turn graph).left < search.left := by
  obtain ⟨marked, stack⟩ := search
  cases stack with
  | nil => exact (h rfl).elim
  | cons vertex stack =>
    cases vertex with
    | exit => simp [turn, left]
    | block index =>
      simp only [turn, left]
      split
      · next hm =>
        have hc := count_set_of_unmarked hm
        have hle := length_successors_le graph (.block index)
        simp only [List.length_append, List.length_reverse, List.length_cons]
        omega
      · simp

/-- Every search halts. -/
theorem exists_halt (graph : Graph α) (search : Search) :
    ∃ n ≤ search.left, ((turn graph)^[n] search).stack = [] := by
  induction hl : search.left using Nat.strong_induction_on generalizing search with
  | _ bound ih =>
    by_cases hs : search.stack = []
    · exact ⟨0, Nat.zero_le _, hs⟩
    · have hlt := left_turn graph hs
      obtain ⟨n, hn, hstack⟩ := ih _ (hl ▸ hlt) (search.turn graph) rfl
      exact ⟨n + 1, by omega, hstack⟩

/-- A vertex is dealt with or waits on the stack; nothing is to be done about the exit. -/
inductive Notes (search : Search) : Vertex → Prop
  | exit : Notes search .exit
  | marked {index : Nat} (h : search.marked[index]? = some true) : Notes search (.block index)
  | pending {vertex : Vertex} (h : vertex ∈ search.stack) : Notes search vertex

/-- What holds before and after every turn of a search from `source`. -/
structure Sound (graph : Graph α) (source : Vertex) (search : Search) : Prop where
  length : search.marked.length = graph.size
  within : ∀ vertex ∈ search.stack, vertex.Within graph.size
  pending : ∀ vertex ∈ search.stack, graph.Path source vertex
  marked : ∀ index, search.marked[index]? = some true → graph.Path source (.block index)
  source : search.Notes source
  successors : ∀ index, search.marked[index]? = some true →
    ∀ target ∈ graph.successors (.block index), search.Notes target

theorem begin_sound (hs : source.Within graph.size) : (begin graph source).Sound graph source where
  length := List.length_replicate
  within := by simpa [begin] using hs
  pending vertex hm := List.mem_singleton.1 hm ▸ .refl
  marked index hm := by simp [begin, List.getElem?_replicate] at hm
  source := .pending (List.mem_singleton_self _)
  successors index hm := by simp [begin, List.getElem?_replicate] at hm

theorem getElem?_set_true {marked : List Bool} {i : Nat}
    (h : (marked.set index true)[i]? = some true) : i = index ∨ marked[i]? = some true := by
  by_cases he : index = i
  · exact .inl he.symm
  · rw [List.getElem?_set_ne he] at h
    exact .inr h

theorem Notes.set {stack : List Vertex} {marked : List Bool} (hm : marked[index]? = some false)
    (h : (⟨marked, .block index :: stack⟩ : Search).Notes vertex) (added : List Vertex) :
    (⟨marked.set index true, added ++ stack⟩ : Search).Notes vertex := by
  obtain ⟨hlt, -⟩ := List.getElem?_eq_some_iff.1 hm
  have hself : (marked.set index true)[index]? = some true := by simp [hlt]
  cases h with
  | exit => exact .exit
  | @marked i hi =>
    by_cases he : index = i
    · exact .marked (he ▸ hself)
    · exact .marked (by rw [List.getElem?_set_ne he]; exact hi)
  | pending h =>
    rcases List.mem_cons.1 h with rfl | h
    · exact .marked hself
    · exact .pending (List.mem_append_right _ h)

theorem Notes.pop {stack : List Vertex} {marked : List Bool} {top : Vertex}
    (h : (⟨marked, top :: stack⟩ : Search).Notes vertex)
    (htop : (⟨marked, stack⟩ : Search).Notes top) :
    (⟨marked, stack⟩ : Search).Notes vertex := by
  cases h with
  | exit => exact .exit
  | marked h => exact .marked h
  | pending h =>
    rcases List.mem_cons.1 h with rfl | h
    · exact htop
    · exact .pending h

/-- A vertex that has been dealt with is taken off the stack. -/
theorem Sound.pop {stack : List Vertex} {marked : List Bool} {top : Vertex}
    (h : (⟨marked, top :: stack⟩ : Search).Sound graph source)
    (htop : (⟨marked, stack⟩ : Search).Notes top) :
    (⟨marked, stack⟩ : Search).Sound graph source where
  length := h.length
  within vertex hm := h.within vertex (List.mem_cons_of_mem _ hm)
  pending vertex hm := h.pending vertex (List.mem_cons_of_mem _ hm)
  marked := h.marked
  source := h.source.pop htop
  successors index hm target ht := (h.successors index hm target ht).pop htop

/-- A block is marked, and its successors wait on the stack instead. -/
theorem Sound.mark {stack : List Vertex} {marked : List Bool} (hc : graph.Closed)
    (h : (⟨marked, .block index :: stack⟩ : Search).Sound graph source)
    (hm : marked[index]? = some false) :
    (⟨marked.set index true, (graph.successors (.block index)).reverse ++ stack⟩ : Search).Sound
      graph source where
  length := by rw [List.length_set, h.length]
  within vertex hv := by
    rcases List.mem_append.1 hv with hv | hv
    · exact hc _ vertex (List.mem_reverse.1 hv)
    · exact h.within vertex (List.mem_cons_of_mem _ hv)
  pending vertex hv := by
    rcases List.mem_append.1 hv with hv | hv
    · exact (h.pending _ (List.mem_cons_self ..)).tail (List.mem_reverse.1 hv)
    · exact h.pending vertex (List.mem_cons_of_mem _ hv)
  marked i hi := by
    rcases getElem?_set_true hi with rfl | hi
    · exact h.pending _ (List.mem_cons_self ..)
    · exact h.marked i hi
  source := h.source.set hm _
  successors i hi target ht := by
    rcases getElem?_set_true hi with rfl | hi
    · exact .pending (List.mem_append_left _ (List.mem_reverse.2 ht))
    · exact (h.successors i hi target ht).set hm _

theorem Sound.turn (hc : graph.Closed) (h : search.Sound graph source) :
    (search.turn graph).Sound graph source := by
  obtain ⟨marked, stack⟩ := search
  cases stack with
  | nil => exact h
  | cons top stack =>
    cases top with
    | exit => exact h.pop .exit
    | block index =>
      simp only [Search.turn]
      split
      · next hm => exact h.mark hc hm
      · next hm =>
        have hlt : index < marked.length := h.length ▸ h.within _ (List.mem_cons_self ..)
        rw [List.getElem?_eq_getElem hlt, Option.some.injEq, Bool.not_eq_false] at hm
        exact h.pop (.marked (by rw [List.getElem?_eq_getElem hlt, hm]))

theorem Sound.run (hc : graph.Closed) (h : search.Sound graph source) (n : Nat) :
    ((Search.turn graph)^[n] search).Sound graph source := by
  induction n generalizing search with
  | zero => exact h
  | succ n ih => exact ih (h.turn hc)

/-- A search that has halted has marked every block that a path leads to. -/
theorem Sound.marks (h : search.Sound graph source) (hs : search.stack = [])
    (hp : graph.Path source vertex) : vertex = .exit ∨
      ∃ index, vertex = .block index ∧ search.marked[index]? = some true := by
  have hnotes : ∀ vertex, search.Notes vertex → vertex = .exit ∨
      ∃ index, vertex = .block index ∧ search.marked[index]? = some true := by
    intro vertex hv
    cases hv with
    | exit => exact .inl rfl
    | marked hm => exact .inr ⟨_, rfl, hm⟩
    | pending hm =>
      rw [hs] at hm
      cases hm
  induction hp with
  | refl => exact hnotes _ h.source
  | tail _ ht ih =>
    rcases ih with rfl | ⟨index, rfl, hm⟩
    · cases ht
    · exact hnotes _ (h.successors index hm _ ht)

theorem Sound.marked_eq (h : search.Sound graph source) (hs : search.stack = [])
    (hi : index < graph.size) :
    search.marked[index]? = some (decide (index ∈ graph.reachable source)) := by
  have hlt : index < search.marked.length := h.length.symm ▸ hi
  have hget := List.getElem?_eq_getElem hlt
  rw [hget, Option.some.injEq, Bool.eq_iff_iff, decide_eq_true_eq, mem_reachable]
  constructor
  · intro hm
    exact ⟨hi, h.marked index (by rw [hget, hm])⟩
  · rintro ⟨-, hp⟩
    rcases h.marks hs hp with he | ⟨_, he, hm⟩
    · cases he
    · cases he
      rw [hget] at hm
      exact Option.some.inj hm

end Search

theorem Closed.within_of_path (hc : graph.Closed) (hs : source.Within graph.size)
    (hp : graph.Path source target) : target.Within graph.size := by
  cases hp.cases_tail with
  | inl he => exact he ▸ hs
  | inr h =>
    obtain ⟨middle, -, ht⟩ := h
    exact hc middle target ht

theorem reachable_exit (graph : Graph α) : graph.reachable .exit = [] := by
  rw [reachable, explore, explore]

/-- A search of a finished graph halts within two turns for each block and one more. It never looks
outside of the graph, and in the end has marked just the blocks that paths lead to; from the exit
there are none. -/
theorem reachable_exact [Ranged α] {raw : RawGraph α} (hr : raw.InRange)
    (h : raw.freeze = .ok graph) (hs : source.Within graph.size) :
    (∃ n ≤ 2 * graph.size + 1,
      ((Search.turn graph)^[n] (Search.begin graph source)).stack = []) ∧
    (∀ n, ∀ vertex ∈ ((Search.turn graph)^[n] (Search.begin graph source)).stack,
      vertex.Within graph.size) ∧
    (∀ n, ((Search.turn graph)^[n] (Search.begin graph source)).stack = [] →
      ∀ index < graph.size, ((Search.turn graph)^[n] (Search.begin graph source)).marked[index]? =
        some (decide (index ∈ graph.reachable source))) ∧
    (∀ index, index ∈ graph.reachable source ↔ graph.Path source (.block index)) ∧
    graph.reachable .exit = [] := by
  have hc := (RawGraph.frozenTo_of_freeze h).closed hr
  have hsound := (Search.begin_sound hs).run hc
  refine ⟨?_, fun n => (hsound n).within, fun n hn index => (hsound n).marked_eq hn,
    fun index => ?_, graph.reachable_exit⟩
  · obtain ⟨n, hn, hstack⟩ := Search.exists_halt graph (Search.begin graph source)
    refine ⟨n, ?_, hstack⟩
    simpa [Search.left, Search.begin] using hn
  · rw [mem_reachable, and_iff_right_iff_imp]
    exact hc.within_of_path hs

/-- A loop of two blocks, and a block behind it to which nothing leads. -/
def circlingDraft : RawGraph Range :=
  ⟨[⟨[⟨0, 1⟩], .branch (some (.block 1)) .exit⟩, ⟨[⟨2, 3⟩], .jump (some (.block 0))⟩,
    ⟨[⟨4, 5⟩], .jump (some (.block 1))⟩], .block 0⟩

def circling : Graph Range :=
  ⟨[⟨[⟨0, 1⟩], .branch (.block 1) .exit⟩, ⟨[⟨2, 3⟩], .always (.block 0)⟩,
    ⟨[⟨4, 5⟩], .always (.block 1)⟩], .block 0⟩

/-- A search that comes back to a marked block, and that leaves one block alone. -/
theorem reachable_exact_loop :
    circlingDraft.InRange ∧ circlingDraft.freeze = .ok circling ∧
      (Vertex.block 0).Within circling.size ∧ circling.reachable (.block 0) = [0, 1] ∧
      (∃ n ≤ 7, ((Search.turn circling)^[n] (Search.begin circling (.block 0))).stack = []) ∧
      (1 ∈ circling.reachable (.block 0) ↔ circling.Path (.block 0) (.block 1)) := by
  have hr : circlingDraft.InRange := by decide
  have h : circlingDraft.freeze = .ok circling := by cbv
  have hs : (Vertex.block 0).Within circling.size := by decide
  have hreach := reachable_exact hr h hs
  exact ⟨hr, h, hs, by cbv, hreach.1, hreach.2.2.2.1 1⟩

end Graph

end FlowLint
