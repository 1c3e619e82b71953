import FlowLint.Proofs.Lint.Loops

/-!
Selecting rules. A rule reports the same whether others are selected or not, and leaving out the
reports of some rules commutes with sorting, because a stable sort is determined by what it sorts.
-/
namespace FlowLint
set_option autoImplicit true

theorem Rule.rank_injective : Function.Injective Rule.rank := by
  intro left right h
  cases left <;> cases right <;> first | rfl | cases h

namespace Diagnostic

/-- Diagnostics of which neither is behind the other are told apart by nothing that is sorted by. -/
theorem NotBehind.same_key {left right : Diagnostic} (h : left.NotBehind right)
    (h' : right.NotBehind left) :
    left.range.start = right.range.start ∧ left.rule = right.rule := by
  rcases h with hlt | ⟨hstart, hrank⟩
  · rcases h' with hlt' | ⟨hstart', -⟩ <;> omega
  · rcases h' with hlt' | ⟨-, hrank'⟩
    · omega
    · exact ⟨hstart, Rule.rank_injective (Nat.le_antisymm hrank hrank')⟩

namespace StableSort

variable {found sorted sorted' : List Diagnostic}

/-- Ascending lists of the same diagnostics are equal where those of each start and rule come in
the same order. -/
theorem unique (h : StableSort found sorted) (h' : StableSort found sorted') :
    sorted = sorted' := by
  have hperm := h.perm.trans h'.perm.symm
  have hstable := fun start rule => (h.stable start rule).trans (h'.stable start rule).symm
  have hascending := h.ascending
  have hascending' := h'.ascending
  clear h h'
  induction sorted generalizing sorted' with
  | nil => exact hperm.nil_eq
  | cons first sorted ih =>
    obtain ⟨first', sorted', rfl⟩ : ∃ d ds, sorted' = d :: ds :=
      List.exists_cons_of_ne_nil fun hnil => (List.cons_ne_nil _ _ (hnil ▸ hperm).eq_nil)
    -- The first diagnostics have the same key, and so they are the first ones of that key.
    have hkey : first.range.start = first'.range.start ∧ first.rule = first'.rule := by
      have hmem : first ∈ first' :: sorted' := hperm.subset (List.mem_cons_self ..)
      have hmem' : first' ∈ first :: sorted := hperm.symm.subset (List.mem_cons_self ..)
      rcases List.mem_cons.1 hmem with rfl | hmem
      · exact ⟨rfl, rfl⟩
      · rcases List.mem_cons.1 hmem' with rfl | hmem'
        · exact ⟨rfl, rfl⟩
        · exact (List.rel_of_pairwise_cons hascending hmem').same_key
            (List.rel_of_pairwise_cons hascending' hmem)
    obtain rfl : first = first' := by
      have hfilter := hstable first.range.start first.rule
      rw [List.filter_cons_of_pos (by simp),
        List.filter_cons_of_pos (by simp [hkey])] at hfilter
      exact (List.cons.inj hfilter).1
    refine congrArg _ (ih hperm.cons_inv (fun start rule => ?_) hascending.of_cons
      hascending'.of_cons)
    have hfilter := hstable start rule
    rw [List.filter_cons, List.filter_cons] at hfilter
    split at hfilter
    · exact (List.cons.inj hfilter).2
    · exact hfilter

protected theorem filter (h : StableSort found sorted) (p : Diagnostic → Bool) :
    StableSort (found.filter p) (sorted.filter p) where
  perm := h.perm.filter p
  ascending := h.ascending.filter p
  stable start rule := by
    rw [List.filter_comm, h.stable, List.filter_comm]

end StableSort

theorem mergeSort_filter (found : List Diagnostic) (p : Diagnostic → Bool) :
    (found.filter p).mergeSort le = (found.mergeSort le).filter p :=
  (mergeSort_stableSort (found.filter p)).unique ((mergeSort_stableSort found).filter p)

end Diagnostic

theorem Rule.check_filter (settings : Settings) (body : Body) (graph : Graph Element)
    (p : Rule → Bool) (rules : List Rule) :
    (rules.filter p).flatMap (Rule.check settings body graph) =
      (rules.flatMap (Rule.check settings body graph)).filter (p ·.rule) := by
  induction rules with
  | nil => rfl
  | cons rule rules ih =>
    have hrule (report) (hm : report ∈ Rule.check settings body graph rule) :
        p report.rule = p rule := by rw [Rule.rule_of_mem_check hm]
    rw [List.flatMap_cons, List.filter_append, ← ih, List.filter_congr hrule, List.filter_cons]
    cases p rule <;> simp

/-- The rules that are not selected only leave out their reports about a body. -/
theorem Body.lint_selected (settings : Settings) (select : List Rule) (body : Body) :
    body.lint { settings with select } =
      (body.lint { settings with select := Rule.all }).filter (·.rule ∈ select) := by
  let chosen : Settings := { settings with select }
  let all : Settings := { settings with select := Rule.all }
  cases hg : body.graph settings.flow with
  | error error =>
    have hsome : body.lint chosen = [] := lint_of_error hg
    have hall : body.lint all = [] := lint_of_error hg
    rw [hsome, hall, List.filter_nil]
  | ok graph =>
    have hsome : body.lint chosen =
        (Rule.all.filter chosen.enabled).flatMap (Rule.check settings body graph) := lint_of_ok hg
    have hall : body.lint all =
        (Rule.all.filter all.enabled).flatMap (Rule.check settings body graph) := lint_of_ok hg
    have hevery : Rule.all.filter all.enabled = Rule.all :=
      List.filter_eq_self.2 fun rule _ => List.contains_iff_mem.2 rule.mem_all
    rw [hsome, hall, hevery, Rule.check_filter]
    exact List.filter_congr fun report _ => List.contains_eq_mem ..

/-- Linting with some rules selected, in any order and with repetitions, finds those of the reports
of all rules that belong to a selected rule, in the same order. -/
theorem Script.lint_select (settings : Settings) (select : List Rule) (script : Script) :
    script.lint { settings with select } =
      (script.lint { settings with select := Rule.all }).filter (·.rule ∈ select) := by
  have hbodies : script.bodies.flatMap (Body.lint { settings with select }) =
      (script.bodies.flatMap (Body.lint { settings with select := Rule.all })).filter
        (·.rule ∈ select) := by
    rw [List.filter_flatMap]
    exact List.flatMap_congr fun body _ => body.lint_selected settings select
  rw [lint, hbodies, Diagnostic.mergeSort_filter]
  rfl

end FlowLint
