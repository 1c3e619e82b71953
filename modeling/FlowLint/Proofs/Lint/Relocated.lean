import FlowLint.Lint.Check
import FlowLint.Proofs.Flow.Relocated

namespace FlowLint
set_option autoImplicit true

def Diagnostic.relocate (f : Range → Range) (diagnostic : Diagnostic) : Diagnostic :=
  { diagnostic with range := f diagnostic.range }

theorem Placement.place_zero (p : Placement) : p.place ⟨0, 0⟩ = ⟨0, 0⟩ := by
  rw [place, p.start_zero, p.stop_zero]

theorem BasicBlock.range_relocate (p : Placement) (block : BasicBlock Element) :
    (block.map (·.relocate p.place)).range = p.place block.range := by
  rw [range, map, List.head?_map, List.getLast?_map, range]
  cases block.elements.head? with
  | none => exact p.place_zero.symm
  | some first =>
    cases block.elements.getLast? with
    | none => exact p.place_zero.symm
    | some last =>
      have hfirst := first.range_relocate (f := p.place)
      have hlast := last.range_relocate (f := p.place)
      exact congrArg₂ (fun first last : Range => Range.mk first.start last.stop) hfirst hlast

theorem Rule.checkUnreachableCode_relocate (p : Placement) (graph : Graph Element) :
    checkUnreachableCode (graph.map (·.relocate p.place)) =
      (checkUnreachableCode graph).map (·.relocate p.place) := by
  rw [checkUnreachableCode, Graph.deadHeads_map, checkUnreachableCode, List.map_map]
  apply List.map_congr_left
  intro head _
  rw [Graph.getElem?_blocks_map, Function.comp, Diagnostic.relocate]
  congr 1
  cases graph.blocks[head]? with
  | none => exact p.place_zero.symm
  | some block => exact block.range_relocate p

def Loop.relocate (f : Range → Range) (loop : Loop) : Loop :=
  ⟨f loop.range, loop.guard.relocate f⟩

theorem Loop.ofElement?_relocate (element : Element) :
    ofElement? (element.relocate f) = (ofElement? element).map (·.relocate f) := by
  obtain ⟨position, stmt | expr⟩ := element
  · have hguard : (stmt.relocate f).guard? position =
        (stmt.guard? position).map (·.relocate f) := by
      cases stmt with
      | forStmt range init test update body =>
        cases test <;> simp [Stmt.relocate, Stmt.guard?, Expr.optionRelocate]
      | _ => simp [Stmt.relocate, Stmt.guard?]
    rw [Element.relocate_statement, ofElement?, hguard, ofElement?, Option.map_map, Option.map_map,
      Stmt.range_relocate]
    rfl
  · rfl

theorem Body.loops_relocate (body : Body) :
    (body.relocate f).loops = body.loops.map (·.relocate f) := by
  rw [loops, relocate, Stmt.walks_relocate, Event.elements_relocate, List.filterMap_map, loops,
    List.map_filterMap]
  exact List.filterMap_congr fun element _ => Loop.ofElement?_relocate element

theorem Graph.neverLoops_relocate (graph : Graph Element) (loop : Loop) :
    (graph.map (·.relocate f)).neverLoops (loop.relocate f) = graph.neverLoops loop := by
  have hguard : (graph.map (·.relocate f)).guardBlock? (loop.relocate f) =
      graph.guardBlock? loop := by
    rw [guardBlock?, map, List.findIdx?_map, guardBlock?]
    congr 1
    funext block
    simp only [Function.comp, BasicBlock.map, List.getLast?_map, Option.any_map]
    rfl
  rw [neverLoops, hguard, neverLoops]
  cases graph.guardBlock? loop with
  | none => rfl
  | some guard =>
    dsimp only
    rw [getElem?_blocks_map, Option.any_map, reachable_map]
    rfl

theorem Rule.checkNeverLoops_relocate (graph : Graph Element) (body : Body) :
    checkNeverLoops (graph.map (·.relocate f)) (body.relocate f) =
      (checkNeverLoops graph body).map (·.relocate f) := by
  have hpred : (graph.map (·.relocate f)).neverLoops ∘ Loop.relocate f = graph.neverLoops :=
    funext graph.neverLoops_relocate
  rw [checkNeverLoops, Body.loops_relocate, List.filter_map, hpred, checkNeverLoops, List.map_map,
    List.map_map]
  rfl

theorem Rule.checkTooComplex_relocate (limit : Nat) (graph : Graph Element) (body : Body) :
    checkTooComplex limit (graph.map (·.relocate f)) (body.relocate f) =
      (checkTooComplex limit graph body).map (·.relocate f) := by
  have howner : (body.relocate f).owner.describe = body.owner.describe := by
    obtain ⟨_ | _ | _ | _, _, _, _⟩ := body <;> rfl
  rw [checkTooComplex, checkTooComplex, Graph.complexity_map, howner]
  split <;> rfl

theorem Rule.check_relocate (p : Placement) (settings : Settings) (body : Body)
    (graph : Graph Element) (rule : Rule) :
    rule.check settings (body.relocate p.place) (graph.map (·.relocate p.place)) =
      (rule.check settings body graph).map (·.relocate p.place) := by
  cases rule with
  | unreachableCode => exact checkUnreachableCode_relocate p graph
  | neverLoops => exact checkNeverLoops_relocate graph body
  | tooComplex => exact checkTooComplex_relocate settings.maxComplexity graph body

theorem Body.lint_relocate {p : Placement} {body : Body} (h : body.KeepsOrder p.place)
    (settings : Settings) :
    (body.relocate p.place).lint settings = (body.lint settings).map (·.relocate p.place) := by
  have hgraph := graph_relocate h settings.flow
  rw [lint, hgraph, lint]
  cases body.graph settings.flow with
  | error error => rfl
  | ok graph =>
    dsimp only [Except.map, Except.mapError]
    rw [List.map_flatMap]
    exact List.flatMap_congr fun rule _ => Rule.check_relocate p settings body graph rule

/-- The reports about a moved script are those about the script, moved. Which of them come first
when they start together may change. -/
theorem Script.lint_relocate {p : Placement} {script : Script}
    (h : ∀ body ∈ script.bodies, body.KeepsOrder p.place) (settings : Settings) :
    ((script.relocate p.place).lint settings).Perm
      ((script.lint settings).map (·.relocate p.place)) := by
  have hbodies : (script.relocate p.place).bodies.flatMap (Body.lint settings) =
      (script.bodies.flatMap (Body.lint settings)).map (·.relocate p.place) := by
    rw [bodies_relocate, List.flatMap_map, List.map_flatMap]
    exact List.flatMap_congr fun body hb => Body.lint_relocate (h body hb) settings
  rw [lint, hbodies, lint]
  exact (List.mergeSort_perm _ _).trans ((List.mergeSort_perm _ _).symm.map _)

end FlowLint
