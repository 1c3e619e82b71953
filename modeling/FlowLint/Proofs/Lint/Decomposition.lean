import FlowLint.Lint.Check
import FlowLint.Proofs.Tree.Functions

namespace FlowLint
set_option autoImplicit true

namespace Diagnostic

/-- The start of one diagnostic's range is before that of another, or they start together and the
rule of the one does not come behind that of the other. -/
def NotBehind (left right : Diagnostic) : Prop :=
  left.range.start < right.range.start ∨
    left.range.start = right.range.start ∧ left.rule.rank ≤ right.rule.rank

/-- A list sorted stably: the same diagnostics in ascending order, and those with the same start and
the same rule as they were. -/
structure StableSort (found sorted : List Diagnostic) : Prop where
  perm : sorted.Perm found
  ascending : sorted.Pairwise NotBehind
  stable : ∀ start rule, sorted.filter (fun d => d.range.start = start ∧ d.rule = rule) =
    found.filter fun d => d.range.start = start ∧ d.rule = rule

theorem le_iff {left right : Diagnostic} : left.le right = true ↔ left.NotBehind right := by
  simp [le, NotBehind]

theorem le_trans (a b c : Diagnostic) (h : a.le b = true) (h' : b.le c = true) :
    a.le c = true := by
  rw [le_iff, NotBehind] at *
  omega

theorem le_total (a b : Diagnostic) : (a.le b || b.le a) = true := by
  rw [Bool.or_eq_true, le_iff, le_iff, NotBehind, NotBehind]
  omega

/-- What is in order already stays as it is among the other diagnostics. -/
theorem filter_mergeSort (found : List Diagnostic) (p : Diagnostic → Bool)
    (h : (found.filter p).Pairwise NotBehind) : (found.mergeSort le).filter p = found.filter p := by
  have hsub : (found.filter p).Sublist (found.mergeSort le) :=
    List.sublist_mergeSort le_trans le_total (h.imp le_iff.2) List.filter_sublist
  have hfilter := hsub.filter p
  simp only [List.filter_filter, Bool.and_self] at hfilter
  have hlength := ((List.mergeSort_perm found le).filter p).length_eq
  exact (hfilter.eq_of_length hlength.symm).symm

theorem mergeSort_stableSort (found : List Diagnostic) :
    StableSort found (found.mergeSort le) where
  perm := List.mergeSort_perm found le
  ascending := (List.pairwise_mergeSort le_trans le_total found).imp le_iff.1
  stable start rule := by
    apply filter_mergeSort
    apply List.pairwise_of_forall_mem_list
    intro left hl right hr
    obtain ⟨-, hleft⟩ := List.mem_filter.1 hl
    obtain ⟨-, hright⟩ := List.mem_filter.1 hr
    obtain ⟨hstart, hrule⟩ := of_decide_eq_true hleft
    obtain ⟨hstart', hrule'⟩ := of_decide_eq_true hright
    exact .inr ⟨hstart.trans hstart'.symm, Nat.le_of_eq (by rw [hrule, hrule'])⟩

end Diagnostic

namespace Body

variable {settings : Settings} {body : Body} {graph : Graph Element}

theorem lint_of_ok (h : body.graph settings.flow = .ok graph) :
    body.lint settings =
      (Rule.all.filter settings.enabled).flatMap (Rule.check settings body graph) := by
  rw [lint, h]

theorem lint_of_error (h : body.graph settings.flow = .error error) : body.lint settings = [] := by
  rw [lint, h]

end Body

/-- The reports about the bodies, sorted together: each body has its own, from its own graph; every
function has one body, behind those of the functions around it; and a body without a graph can be
left out. -/
theorem Script.lint_decomposes (settings : Settings) (script : Script) :
    Diagnostic.StableSort (script.bodies.flatMap (Body.lint settings)) (script.lint settings) ∧
      (∃ bodies, script.bodies = Body.ofScript script :: bodies ∧
        (bodies.map Body.content).Perm script.functions) ∧
      (script.bodies.Pairwise fun left right => left.position < right.position) ∧
      (∀ outer ∈ script.bodies, ∀ inner ∈ outer.functions,
        [outer, inner].Sublist script.bodies) ∧
      (∀ body ∈ script.bodies, ∀ graph, body.graph settings.flow = .ok graph →
        body.lint settings =
          (Rule.all.filter settings.enabled).flatMap (Rule.check settings body graph)) ∧
      ∀ before failed after error, script.bodies = before ++ failed :: after →
        failed.graph settings.flow = .error error →
        Diagnostic.StableSort ((before ++ after).flatMap (Body.lint settings))
          (script.lint settings) := by
  have hsort : Diagnostic.StableSort (script.bodies.flatMap (Body.lint settings))
      (script.lint settings) := Diagnostic.mergeSort_stableSort _
  refine ⟨hsort, script.bodies_functions, script.bodies_pairwise,
    fun outer ho inner hi => inner_sublist_bodies ho hi, fun body _ graph hg => Body.lint_of_ok hg,
    ?_⟩
  intro before failed after error hb he
  rw [hb, List.flatMap_append, List.flatMap_cons, Body.lint_of_error he, List.nil_append,
    ← List.flatMap_append] at hsort
  exact hsort

end FlowLint
