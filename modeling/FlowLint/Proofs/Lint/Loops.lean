import FlowLint.Proofs.Flow.Guard
import FlowLint.Proofs.Flow.Reach
import FlowLint.Proofs.Grammar.Nesting
import FlowLint.Proofs.Lint.Decomposition
import Mathlib.Data.List.Flatten

namespace FlowLint
set_option autoImplicit true

namespace Graph

variable {graph : Graph Element} {loop : Loop} {index i j : Nat}

/-- A block ends in the node with a position. -/
def EndsAt (graph : Graph Element) (index position : Nat) : Prop :=
  ∃ block, graph.blocks[index]? = some block ∧
    ∃ last, block.elements.getLast? = some last ∧ last.position = position

theorem EndsAt.unique (hn : (graph.elements.map (·.position)).Nodup) (h : graph.EndsAt i position)
    (h' : graph.EndsAt j position) : i = j := by
  obtain ⟨block, hi, last, hl, hp⟩ := h
  obtain ⟨block', hj, last', hl', hp'⟩ := h'
  exact eq_of_position_eq hn hi hj (List.mem_of_getLast? hl) (List.mem_of_getLast? hl')
    (hp.trans hp'.symm)

end Graph

theorem Loop.range_of_ofElement? (h : Loop.ofElement? element = some loop) :
    loop.range = element.range := by
  obtain ⟨position, node⟩ := element
  cases node with
  | expression => cases h
  | statement stmt =>
    obtain ⟨guard, -, rfl⟩ := Option.map_eq_some_iff.1 h
    rfl

theorem Rule.rule_of_mem_check {rule : Rule} {diagnostic : Diagnostic}
    (h : diagnostic ∈ rule.check settings body graph) : diagnostic.rule = rule := by
  cases rule with
  | unreachableCode | neverLoops =>
    obtain ⟨_, -, rfl⟩ := List.mem_map.1 h
    rfl
  | tooComplex =>
    rw [check, checkTooComplex] at h
    split at h
    · cases h
    · rw [List.mem_singleton.1 h]

namespace Script

end Script

end FlowLint
