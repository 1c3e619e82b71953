import FlowLint.Lint.UnreachableCode
import FlowLint.Proofs.Flow.Unbroken
import Mathlib.Data.List.Pairwise

/-!
The blocks that are reported as unreachable. None of them is reached from the start, and together
they reach all blocks that are not. They are chosen greedily, so a block that is reported may still
be reached from one that is reported after it.
-/
namespace FlowLint
set_option autoImplicit true

namespace Graph

variable {α : Type} {graph : Graph α} {covered heads : List Nat} {head index : Nat}

theorem uncovered_sublist (graph : Graph α) (covered heads : List Nat) :
    (graph.uncovered covered heads).Sublist heads := by
  fun_induction uncovered graph covered heads with
  | case1 => exact .refl _
  | case2 covered head heads _ ih => exact ih.cons _
  | case3 covered head heads _ ih => exact ih.cons_cons _

theorem not_mem_of_mem_uncovered (h : head ∈ graph.uncovered covered heads) : head ∉ covered := by
  fun_induction uncovered graph covered heads with
  | case1 => cases h
  | case2 covered first heads _ ih => exact ih h
  | case3 covered first heads hfirst ih =>
    rcases List.mem_cons.1 h with rfl | h
    · exact hfirst
    · exact fun hm => ih h (List.mem_append_left _ hm)

/-- The later candidates are chosen as if the blocks reached from the earlier choices had been
covered from the beginning. -/
theorem uncovered_append (graph : Graph α) (covered earlier later : List Nat) :
    graph.uncovered covered (earlier ++ later) =
      graph.uncovered covered earlier ++
        graph.uncovered
          (covered ++ (graph.uncovered covered earlier).flatMap (graph.reachable <| .block ·))
          later := by
  fun_induction uncovered graph covered earlier with
  | case1 covered => simp
  | case2 covered head heads hm ih => rw [List.cons_append, uncovered, if_pos hm, ih]
  | case3 covered head heads hm ih =>
    rw [List.cons_append, uncovered, if_neg hm, ih, List.cons_append, List.flatMap_cons,
      List.append_assoc]

/-- No choice is reached from an earlier one. -/
theorem uncovered_pairwise (graph : Graph α) (covered heads : List Nat) :
    (graph.uncovered covered heads).Pairwise fun earlier later =>
      later ∉ graph.reachable (.block earlier) := by
  fun_induction uncovered graph covered heads with
  | case1 => exact .nil
  | case2 covered head heads _ ih => exact ih
  | case3 covered head heads _ ih =>
    refine .cons (fun later hm hr => ?_) ih
    exact not_mem_of_mem_uncovered hm (List.mem_append_right _ hr)

theorem mem_covered_of_candidate (hc : index ∈ heads) (hlt : index < graph.size) :
    index ∈ covered ++ (graph.uncovered covered heads).flatMap (graph.reachable <| .block ·) := by
  fun_induction uncovered graph covered heads with
  | case1 => cases hc
  | case2 covered head heads hm ih =>
    rcases List.mem_cons.1 hc with rfl | hc
    · exact List.mem_append_left _ hm
    · exact ih hc
  | case3 covered head heads hm ih =>
    rw [List.flatMap_cons, ← List.append_assoc]
    rcases List.mem_cons.1 hc with rfl | hc
    · have hself : index ∈ graph.reachable (.block index) := mem_reachable.2 ⟨hlt, .refl⟩
      exact List.mem_append_left _ (List.mem_append_right _ hself)
    · exact ih hc

/-- The blocks that no edge leads to. -/
def entries (graph : Graph α) : List Nat :=
  (List.range graph.size).filter fun index => (graph.predecessors (.block index)).isEmpty

theorem mem_entries :
    index ∈ graph.entries ↔ index < graph.size ∧ graph.predecessors (.block index) = [] := by
  simp [entries]

/-- No path leads to a block from where runs begin. -/
def Dead (graph : Graph α) (index : Nat) : Prop :=
  index < graph.size ∧ ¬ graph.Path graph.start (.block index)

theorem Dead.of_path (h : graph.Dead index) (hlt : other < graph.size)
    (hp : graph.Path (.block other) (.block index)) : graph.Dead other :=
  ⟨hlt, fun hstart => h.2 (hstart.trans hp)⟩

theorem lt_size_of_mem_deadHeads (h : head ∈ graph.deadHeads) : head < graph.size := by
  have hm := (graph.uncovered_sublist _ _).subset h
  rcases List.mem_append.1 hm with hm | hm
  · exact List.mem_range.1 (List.mem_filter.1 hm).1
  · exact List.mem_range.1 hm

theorem dead_of_mem_deadHeads (h : head ∈ graph.deadHeads) : graph.Dead head := by
  have hlt := lt_size_of_mem_deadHeads h
  exact ⟨hlt, fun hp => not_mem_of_mem_uncovered h (mem_reachable.2 ⟨hlt, hp⟩)⟩

theorem deadHeads_pairwise (graph : Graph α) :
    graph.deadHeads.Pairwise fun earlier later =>
      ¬ graph.Path (.block earlier) (.block later) := by
  have hp := graph.uncovered_pairwise (graph.reachable graph.start)
    (graph.entries ++ List.range graph.size)
  refine List.Pairwise.imp_of_mem (fun hearlier hlater hr hpath => ?_) hp
  exact hr (mem_reachable.2 ⟨lt_size_of_mem_deadHeads hlater, hpath⟩)

theorem deadHeads_nodup (graph : Graph α) : graph.deadHeads.Nodup := by
  refine graph.deadHeads_pairwise.imp ?_
  rintro earlier _ hp rfl
  exact hp .refl

theorem deadHeads_eq_append (hn : n ≤ graph.size) :
    ∃ later, graph.deadHeads =
      graph.uncovered (graph.reachable graph.start) (graph.entries ++ List.range n) ++
        graph.uncovered (graph.reachable graph.start ++
          (graph.uncovered (graph.reachable graph.start)
            (graph.entries ++ List.range n)).flatMap (graph.reachable <| .block ·)) later := by
  obtain ⟨k, hk⟩ := Nat.exists_eq_add_of_le hn
  refine ⟨(List.range k).map (n + ·), ?_⟩
  rw [← uncovered_append, List.append_assoc, ← List.range_add, ← hk]
  rfl

/-- A block that is not reached from the start is reached from a reported one, which is an entry or
does not stand behind it. -/
theorem exists_deadHead (h : graph.Dead index) :
    ∃ head ∈ graph.deadHeads, graph.Path (.block head) (.block index) ∧
      (head ∈ graph.entries ∨ head ≤ index) := by
  obtain ⟨later, he⟩ := deadHeads_eq_append (Nat.succ_le_of_lt h.1)
  have hc : index ∈ graph.entries ++ List.range (index + 1) :=
    List.mem_append_right _ (List.mem_range.2 (Nat.lt_succ_self _))
  rcases List.mem_append.1 (mem_covered_of_candidate hc h.1) with hm | hm
  · exact (h.2 (mem_reachable.1 hm).2).elim
  · obtain ⟨head, hhead, hr⟩ := List.mem_flatMap.1 hm
    refine ⟨head, he ▸ List.mem_append_left _ hhead, (mem_reachable.1 hr).2, ?_⟩
    refine (List.mem_append.1 ((graph.uncovered_sublist _ _).subset hhead)).imp_right fun hm => ?_
    exact Nat.le_of_lt_succ (List.mem_range.1 hm)

/-- No entry and no block before it leads to a reported block that is not an entry. -/
theorem not_path_deadHead (h : head ∈ graph.deadHeads) (hne : head ∉ graph.entries)
    (hlt : index < graph.size) (hi : index ∈ graph.entries ∨ index < head) :
    ¬ graph.Path (.block index) (.block head) := by
  obtain ⟨hsize, hstart⟩ := dead_of_mem_deadHeads h
  obtain ⟨later, he⟩ := deadHeads_eq_append (Nat.le_of_lt hsize)
  rw [he] at h
  intro hp
  rcases List.mem_append.1 h with hm | hm
  · rcases List.mem_append.1 ((graph.uncovered_sublist _ _).subset hm) with hm | hm
    · exact hne hm
    · exact Nat.lt_irrefl head (List.mem_range.1 hm)
  · -- The block was a candidate before `head`, so it was covered by then, and so was `head`.
    have hc : index ∈ graph.entries ++ List.range head :=
      List.mem_append.2 (hi.imp_right List.mem_range.2)
    refine not_mem_of_mem_uncovered hm ?_
    rcases List.mem_append.1 (mem_covered_of_candidate hc hlt) with hm | hm
    · exact (hstart ((mem_reachable.1 hm).2.trans hp)).elim
    · obtain ⟨other, hother, hr⟩ := List.mem_flatMap.1 hm
      refine List.mem_append_right _ (List.mem_flatMap.2 ⟨other, hother, ?_⟩)
      exact mem_reachable.2 ⟨hsize, (mem_reachable.1 hr).2.trans hp⟩

end Graph

def Diagnostic.IsDeadCode {α : Type} [Ranged α] (graph : Graph α) (diagnostic : Diagnostic)
    (index : Nat) : Prop :=
  ∃ block, graph.blocks[index]? = some block ∧
    diagnostic = ⟨.unreachableCode, "Unreachable code", block.range⟩

theorem Rule.reports_deadHeads {α : Type} [Ranged α] (graph : Graph α) :
    List.Forall₂ (Diagnostic.IsDeadCode graph) (Rule.checkUnreachableCode graph)
      graph.deadHeads := by
  rw [checkUnreachableCode, List.forall₂_map_left_iff, List.forall₂_same]
  intro head hm
  have hb := List.getElem?_eq_getElem (Graph.lt_size_of_mem_deadHeads hm)
  exact ⟨_, hb, by rw [hb, Option.elim_some]⟩

theorem Rule.checkUnreachableCode_eq_nil {α : Type} [Ranged α] {graph : Graph α}
    (h : ∀ index < graph.size, graph.Path graph.start (.block index)) :
    Rule.checkUnreachableCode graph = [] := by
  rw [checkUnreachableCode, List.map_eq_nil_iff, List.eq_nil_iff_forall_not_mem]
  intro head hm
  obtain ⟨hlt, hdead⟩ := Graph.dead_of_mem_deadHeads hm
  exact hdead (h head hlt)

/-- The reported blocks are not reached from the start, none is reported twice, and every block that
is not reached from the start is reached from a reported one. So nothing is reported if and only if
the start reaches all blocks. -/
theorem Rule.checkUnreachableCode_exact {α : Type} [Ranged α] (graph : Graph α) :
    List.Forall₂ (Diagnostic.IsDeadCode graph) (Rule.checkUnreachableCode graph)
        graph.deadHeads ∧
      graph.deadHeads.Nodup ∧
      (∀ head ∈ graph.deadHeads, ¬ graph.Path graph.start (.block head)) ∧
      (∀ index < graph.size, ¬ graph.Path graph.start (.block index) →
        ∃ head ∈ graph.deadHeads, graph.Path (.block head) (.block index)) ∧
      (Rule.checkUnreachableCode graph = [] ↔
        ∀ index < graph.size, graph.Path graph.start (.block index)) := by
  have hcomplete : ∀ index < graph.size, ¬ graph.Path graph.start (.block index) →
      ∃ head ∈ graph.deadHeads, graph.Path (.block head) (.block index) := by
    intro index hlt hdead
    obtain ⟨head, hm, hp, -⟩ := Graph.exists_deadHead ⟨hlt, hdead⟩
    exact ⟨head, hm, hp⟩
  refine ⟨Rule.reports_deadHeads graph, graph.deadHeads_nodup,
    fun head hm => (Graph.dead_of_mem_deadHeads hm).2, hcomplete, ?_,
    Rule.checkUnreachableCode_eq_nil⟩
  intro hnil index hlt
  by_contra hdead
  obtain ⟨head, hm, -⟩ := hcomplete index hlt hdead
  rw [List.map_eq_nil_iff.1 hnil] at hm
  cases hm

namespace Body

/-- When a body has no jump, `return`, `throw` or `with`, and no `for` without a test, it has a
graph, the start reaches all of it, and nothing is reported. Functions in the body do not count. -/
theorem noDeadCode_of_unbroken {body : Body} (hu : body.Unbroken) (options : FlowOptions) :
    ∃ graph, body.graph options = .ok graph ∧
      (∀ index < graph.size, graph.Path graph.start (.block index)) ∧
      Rule.checkUnreachableCode graph = [] := by
  obtain ⟨graph, hg, hreached⟩ := graph_of_unbroken hu options
  exact ⟨graph, hg, hreached, Rule.checkUnreachableCode_eq_nil hreached⟩

/-- A default clause in front, another one that is only fallen into, a `catch`, an empty `finally`,
and a function that returns at once:
`l: do switch (a) { default: try { f(); } catch (e) { while (b); } finally {} case c: default: `
`for (; d; g) { function h() { return; } } } while (i);` -/
def fallenInto : Body :=
  ⟨.script, ⟨0, 148⟩, 0, [.labeled ⟨0, 148⟩ ⟨"l", ⟨0, 1⟩⟩ (.doStmt ⟨3, 148⟩
    (.switchStmt ⟨6, 137⟩ (.name ⟨14, 15⟩ "a")
      [⟨⟨19, 76⟩, none, [.tryStmt ⟨28, 76⟩
        ⟨⟨32, 40⟩, [.expression ⟨34, 38⟩ (.call ⟨34, 37⟩ (.name ⟨34, 35⟩ "f") [])]⟩
        (some ⟨⟨41, 65⟩, some (.name ⟨48, 49⟩ "e"),
          ⟨⟨51, 65⟩, [.whileStmt ⟨53, 63⟩ (.name ⟨60, 61⟩ "b") (.empty ⟨62, 63⟩)]⟩⟩)
        (some ⟨⟨74, 76⟩, []⟩)]⟩,
      ⟨⟨77, 84⟩, some (.name ⟨82, 83⟩ "c"), []⟩,
      ⟨⟨85, 135⟩, none, [.forStmt ⟨94, 135⟩ none (some (.name ⟨101, 102⟩ "d"))
        (some (.name ⟨104, 105⟩ "g"))
        (.block ⟨107, 135⟩ [.function ⟨109, 133⟩ ⟨"h", ⟨118, 119⟩⟩ []
          [.returnStmt ⟨124, 131⟩ none]])]⟩])
    (.name ⟨145, 146⟩ "i"))]⟩

theorem noDeadCode_of_unbroken_fallenInto :
    fallenInto.Unbroken ∧ ∃ graph, fallenInto.graph {} = .ok graph ∧ graph.size = 9 ∧
      (∀ index < graph.size, graph.Path graph.start (.block index)) ∧
      Rule.checkUnreachableCode graph = [] := by
  have hu : fallenInto.Unbroken := by decide
  obtain ⟨graph, hg, hsize⟩ : ∃ graph, fallenInto.graph {} = .ok graph ∧ graph.size = 9 := by
    refine ⟨_, by cbv, by decide⟩
  obtain ⟨graph', hg', hall⟩ := noDeadCode_of_unbroken hu {}
  obtain rfl := Except.ok.inj (hg.symm.trans hg')
  exact ⟨hu, graph, hg, hsize, hall⟩

end Body

namespace Graph

variable {α : Type} {graph : Graph α} {head index : Nat}

/-- A block leads back to all blocks that lead to it: a region of the graph is entered here. -/
def Opens (graph : Graph α) (index : Nat) : Prop :=
  ∀ other, graph.Path (.block other) (.block index) → graph.Path (.block index) (.block other)

theorem Path.lt_size (h : graph.Path (.block index) (.block head)) (hlt : head < graph.size) :
    index < graph.size := by
  rcases Relation.ReflTransGen.cases_head h with he | ⟨next, hm, -⟩
  · exact Vertex.block.inj he ▸ hlt
  · exact lt_size_of_mem_successors hm

theorem opens_of_mem_entries (h : index ∈ graph.entries) : graph.Opens index := by
  intro other hp
  rcases Relation.ReflTransGen.cases_tail hp with he | ⟨middle, -, hm⟩
  · rw [he]
    exact .refl
  · cases middle with
    | exit => cases hm
    | block before =>
      obtain ⟨hlt, hnone⟩ := mem_entries.1 h
      have hbefore := (mem_predecessors (Vertex.within_block.2 hlt)).2 hm
      rw [hnone] at hbefore
      cases hbefore

def Mutual (graph : Graph α) (index other : Nat) : Prop :=
  graph.Path (.block index) (.block other) ∧ graph.Path (.block other) (.block index)

theorem eq_of_mutual (hm : head ∈ graph.deadHeads) (hm' : other ∈ graph.deadHeads)
    (h : graph.Mutual head other) : head = other := by
  have hsymm : Std.Symm fun a b => ¬ graph.Mutual a b := ⟨fun _ _ hr hboth => hr hboth.symm⟩
  have hapart : graph.deadHeads.Pairwise fun a b => ¬ graph.Mutual a b :=
    graph.deadHeads_pairwise.imp fun hr hboth => hr hboth.1
  by_contra hne
  exact hapart.forall hm hm' hne h

/-- Reported blocks do not reach one another if and only if each of them opens its region. -/
theorem deadHeads_antichain_iff_opens (graph : Graph α) :
    (∀ head ∈ graph.deadHeads, ∀ other ∈ graph.deadHeads, other ≠ head →
        ¬ graph.Path (.block other) (.block head)) ↔
      ∀ head ∈ graph.deadHeads, graph.Opens head := by
  constructor
  · intro hanti head hm other hp
    have hdead := dead_of_mem_deadHeads hm
    obtain ⟨first, hfirst, hp', -⟩ := exists_deadHead (hdead.of_path (hp.lt_size hdead.1) hp)
    by_cases he : first = head
    · exact he ▸ hp'
    · exact (hanti head hm first hfirst he (hp'.trans hp)).elim
  · intro hopens head hm other hm' hne hp
    exact hne (eq_of_mutual hm' hm ⟨hp, hopens head hm other hp⟩)

/-- One report is enough for each region of unreachable code if and only if such a region is always
opened by a block that comes up in time: a block that no edge leads to, or one that does not stand
behind the blocks reached from it. Then no reported block is reached from another. In any case, none
is reached from one reported before it. -/
theorem deadHeads_antichain_iff (graph : Graph α) :
    (graph.deadHeads.Pairwise fun earlier later =>
        ¬ graph.Path (.block earlier) (.block later)) ∧
    ((∀ head ∈ graph.deadHeads, ∀ other ∈ graph.deadHeads, other ≠ head →
        ¬ graph.Path (.block other) (.block head)) ↔
      ∀ index, graph.Dead index → ∃ source, graph.Opens source ∧
        graph.Path (.block source) (.block index) ∧
        (graph.predecessors (.block source) = [] ∨ source ≤ index)) := by
  refine ⟨graph.deadHeads_pairwise, graph.deadHeads_antichain_iff_opens.trans ?_⟩
  constructor
  · intro hopens index hdead
    obtain ⟨head, hm, hp, hfirst⟩ := exists_deadHead hdead
    exact ⟨head, hopens head hm, hp, hfirst.imp_left fun he => (mem_entries.1 he).2⟩
  · intro hsources head hm
    have hdead := dead_of_mem_deadHeads hm
    obtain ⟨source, hopens, hp, hfirst⟩ := hsources head hdead
    by_cases hentry : head ∈ graph.entries
    · exact opens_of_mem_entries hentry
    · have hlt := hp.lt_size hdead.1
      by_cases he : source = head
      · exact he ▸ hopens
      · refine (not_path_deadHead hm hentry hlt ?_ hp).elim
        exact hfirst.imp (fun hnone => mem_entries.2 ⟨hlt, hnone⟩) fun hle =>
          Nat.lt_of_le_of_ne hle he

end Graph

/-- A loop that is left at once, with another one behind, from which its update could go on:
`for (;; u) { return; while (x) {} }` -/
def Body.updateBehindReturn : Body :=
  ⟨.script, ⟨0, 35⟩, 0, [.forStmt ⟨0, 35⟩ none none (some (.name ⟨8, 9⟩ "u"))
    (.block ⟨11, 35⟩ [.returnStmt ⟨13, 20⟩ none,
      .whileStmt ⟨21, 33⟩ (.name ⟨28, 29⟩ "x") (.block ⟨31, 33⟩ [])])]⟩

/-- The update stands in front of the inner loop that leads to it, and both are reported. -/
theorem Graph.deadHeads_not_antichain :
    ∃ graph, Body.updateBehindReturn.graph {} = .ok graph ∧
      ∃ head ∈ graph.deadHeads, ∃ other ∈ graph.deadHeads,
        other ≠ head ∧ graph.Path (.block other) (.block head) := by
  obtain ⟨graph, hg, hheads, hedge⟩ : ∃ graph, Body.updateBehindReturn.graph {} = .ok graph ∧
      graph.deadHeads = [1, 3] ∧ .block 1 ∈ graph.successors (.block 3) := by
    refine ⟨_, by cbv, by cbv, by decide⟩
  exact ⟨graph, hg, 1, by simp [hheads], 3, by simp [hheads], by decide, .single hedge⟩

end FlowLint
