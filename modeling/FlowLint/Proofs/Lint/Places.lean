import FlowLint.Proofs.Flow.Located
import FlowLint.Proofs.Flow.Stages
import FlowLint.Proofs.Lint.DeadCode
import FlowLint.Proofs.Lint.Loops

namespace FlowLint
set_option autoImplicit true

theorem Body.exists_range_of_ofElement? {body : Body} {element : Element} {piece : Piece}
    (ho : ofElement? element = some body) (hn : piece.node? = some element.node) :
    ∃ part ∈ piece.pieces, body.range = part.range := by
  obtain ⟨position, node⟩ := element
  cases piece with
  | expression expr =>
    cases hn
    cases expr with
    | function =>
      cases ho
      exact ⟨_, Piece.self_mem_pieces _, rfl⟩
    | _ => cases ho
  | statement stmt =>
    cases hn
    cases stmt with
    | function range name parameters stmts =>
      cases ho
      exact ⟨.identifier name, Piece.mem_pieces_of_child (List.mem_cons_self ..), rfl⟩
    | _ => cases ho
  | _ => cases hn

/-- A body stands for the script or for a piece of it. -/
theorem Body.range_of_mem_bodies {script : Script} {body : Body} (hb : body ∈ script.bodies) :
    body.range = script.range ∨ ∃ piece ∈ script.pieces, body.range = piece.range := by
  rcases List.mem_cons.1 hb with rfl | hb
  · exact .inl rfl
  · obtain ⟨element, he, ho⟩ := List.mem_filterMap.1 hb
    obtain ⟨piece, hpiece, hn⟩ := Script.exists_piece_of_mem_walk he
    obtain ⟨part, hpart, hr⟩ := exists_range_of_ofElement? ho hn
    exact .inr ⟨part, Script.pieces_subset hpiece hpart, hr⟩

theorem Body.about_of_graph_error {script : Script} {body : Body} (hb : body ∈ script.bodies)
    (h : body.graph options = .error error) : error.About script.pieces := by
  have hlast := body.graph_failsWithLast options
  rw [h, FailsWithLast] at hlast
  split at hlast
  · obtain ⟨_, hg⟩ := hlast
    cases hg
  · next hl =>
    cases hlast
    apply (about_of_mem_offences (List.mem_of_getLast? hl)).mono
    intro piece hm
    obtain ⟨stmt, hs, hp⟩ := List.mem_flatMap.1 hm
    exact Script.pieces_subset_of_body hb stmt hs hp

theorem Body.exists_range_of_mem_nodes {script : Script} {body : Body} {element : Element}
    (hb : body ∈ script.bodies) (he : element ∈ body.nodes) :
    ∃ piece ∈ script.pieces, element.range = piece.range := by
  obtain ⟨piece, hm, hn⟩ := exists_piece hb he
  exact ⟨piece, hm, (Piece.range_of_node? hn).symm⟩

theorem Body.elements_of_mem_blocks {body : Body} {graph : Graph Element}
    (hg : body.graph options = .ok graph) (hm : block ∈ graph.blocks) :
    block.elements ≠ [] ∧ block.elements ⊆ body.nodes := by
  constructor
  · exact elements_ne_nil hg block hm
  · intro element he
    have hgraph : element ∈ graph.elements := List.mem_flatMap.2 ⟨block, hm, he⟩
    exact body.evaluated_sublist.subset ((elements_perm hg).subset hgraph)

/-- A range goes from the start of one piece to the end of one. -/
def Range.Joins (pieces : List Piece) (range : Range) : Prop :=
  ∃ first ∈ pieces, ∃ last ∈ pieces, range = ⟨first.range.start, last.range.stop⟩

theorem Range.joins_of_mem {pieces : List Piece} (h : ∃ piece ∈ pieces, range = piece.range) :
    Range.Joins pieces range := by
  obtain ⟨piece, hm, rfl⟩ := h
  exact ⟨piece, hm, piece, hm, rfl⟩

theorem BasicBlock.range_joins {pieces : List Piece} {block : BasicBlock Element}
    (hne : block.elements ≠ [])
    (h : ∀ element ∈ block.elements, ∃ piece ∈ pieces, element.range = piece.range) :
    block.range.Joins pieces := by
  obtain ⟨first, hf, hfirst⟩ := h _ (List.head_mem hne)
  obtain ⟨last, hl, hlast⟩ := h _ (List.getLast_mem hne)
  refine ⟨first, hf, last, hl, ?_⟩
  rw [range, List.head?_eq_some_head hne, List.getLast?_eq_some_getLast hne, ← hfirst, ← hlast]
  rfl

theorem Body.range_of_mem_check {script : Script} {body : Body} {graph : Graph Element}
    {rule : Rule} (hb : body ∈ script.bodies) (hg : body.graph options = .ok graph)
    (h : report ∈ rule.check settings body graph) :
    report.range = body.range ∨ report.range.Joins script.pieces := by
  cases rule with
  | unreachableCode =>
    obtain ⟨head, hm, rfl⟩ := List.mem_map.1 h
    have hlt := Graph.lt_size_of_mem_deadHeads hm
    obtain ⟨hne, hnodes⟩ := elements_of_mem_blocks hg (List.getElem_mem hlt)
    rw [List.getElem?_eq_getElem hlt]
    exact .inr (BasicBlock.range_joins hne fun element he =>
      exists_range_of_mem_nodes hb (hnodes he))
  | neverLoops =>
    obtain ⟨loop, hm, rfl⟩ := List.mem_map.1 h
    obtain ⟨element, he, hl⟩ := List.mem_filterMap.1 (List.mem_of_mem_filter hm)
    have hrange := exists_range_of_mem_nodes hb he
    rw [← Loop.range_of_ofElement? hl] at hrange
    exact .inr (Range.joins_of_mem hrange)
  | tooComplex =>
    rw [Rule.check, Rule.checkTooComplex] at h
    split at h
    · cases h
    · rw [List.mem_singleton.1 h]
      exact .inl rfl

/-- A report about a script is about all of it, or goes from one piece of it to another. -/
theorem Script.range_of_mem_lint {script : Script} (h : report ∈ script.lint settings) :
    report.range = script.range ∨ report.range.Joins script.pieces := by
  rw [lint, List.mem_mergeSort] at h
  obtain ⟨body, hb, hm⟩ := List.mem_flatMap.1 h
  cases hg : body.graph settings.flow with
  | error error =>
    rw [Body.lint_of_error hg] at hm
    cases hm
  | ok graph =>
    rw [Body.lint_of_ok hg] at hm
    obtain ⟨rule, -, hm⟩ := List.mem_flatMap.1 hm
    rcases Body.range_of_mem_check hb hg hm with hr | hr
    · rw [hr]
      exact (Body.range_of_mem_bodies hb).imp_right Range.joins_of_mem
    · exact .inr hr

end FlowLint
