import FlowLint.Proofs.Flow.Evaluated
import FlowLint.Proofs.Flow.Failure

namespace FlowLint
set_option autoImplicit true

def RawGraph.elements {α : Type} (graph : RawGraph α) : List α :=
  graph.blocks.flatMap (·.elements)

def Graph.elements {α : Type} (graph : Graph α) : List α :=
  graph.blocks.flatMap (·.elements)

namespace Draft

def elements (draft : Draft) : List Element :=
  draft.toRawGraph.elements

/-- A draft has its current block, and it has got some elements since another draft. -/
structure Collects (draft later : Draft) (added : List Element) : Prop where
  current_lt : later.current < later.blocks.length
  perm : later.elements.Perm (added ++ draft.elements)

variable {draft later : Draft} {added added' : List Element}

theorem Collects.refl (h : draft.current < draft.blocks.length) : draft.Collects draft [] :=
  ⟨h, .refl _⟩

theorem Collects.of_perm (h : draft.Collects later added) (hp : added.Perm added') :
    draft.Collects later added' :=
  ⟨h.current_lt, h.perm.trans (hp.append_right _)⟩

theorem Collects.prepend (h : draft.Collects later added) (element : Element) :
    draft.Collects (later.prepend element) (element :: added) := by
  refine ⟨by simpa using h.current_lt, ?_⟩
  obtain ⟨before, block, behind, hb, -, hm⟩ :=
    List.exists_of_modify (RawBlock.prepend element) h.current_lt
  have hp := h.perm
  simp only [elements, RawGraph.elements, toRawGraph, hb, List.flatMap_append,
    List.flatMap_cons] at hp
  simp only [elements, RawGraph.elements, toRawGraph, Draft.prepend, hm, List.flatMap_append,
    List.flatMap_cons]
  exact List.perm_middle.trans (hp.cons element)

theorem Collects.enterBlock (h : draft.Collects later added) (edge : RawEdge) :
    draft.Collects (later.enterBlock edge) added := by
  refine ⟨by simp, ?_⟩
  simpa [elements, RawGraph.elements, toRawGraph, Draft.enterBlock, RawBlock.ofEdge] using h.perm

theorem Collects.enter (h : draft.Collects later added) (target : Vertex) :
    draft.Collects (later.enter target) added :=
  h.enterBlock _

theorem Collects.addGuard (h : draft.Collects later added) (edge : RawEdge) (head : Element) :
    draft.Collects (later.addGuard edge head) (head :: added) := by
  refine ⟨by simpa using Nat.lt_succ_of_lt h.current_lt, ?_⟩
  have hp : (later.addGuard edge head).elements.Perm (head :: later.elements) := by
    simp [elements, RawGraph.elements, toRawGraph, Draft.addGuard]
  exact hp.trans (h.perm.cons head)

theorem Collects.wire (h : draft.Collects later added) (guard : Nat) :
    draft.Collects (later.wire guard) added := by
  refine ⟨by simpa using h.current_lt, ?_⟩
  rcases Nat.lt_or_ge guard later.blocks.length with hg | hg
  · obtain ⟨before, block, behind, hb, -, hm⟩ :=
      List.exists_of_modify (RawBlock.enterLoop later.here) hg
    have hp := h.perm
    simp only [elements, RawGraph.elements, toRawGraph, hb, List.flatMap_append,
      List.flatMap_cons] at hp
    simpa only [elements, RawGraph.elements, toRawGraph, Draft.wire, hm, List.flatMap_append,
      List.flatMap_cons, RawBlock.elements_enterLoop] using hp
  · rw [Draft.wire, List.modify_eq_self hg]
    exact h.perm

theorem Collects.addUpdate (h : draft.Collects later added) (guard : Vertex)
    (update : Option Element) :
    draft.Collects (later.addUpdate guard update).1 (update.toList ++ added) := by
  cases update with
  | none => exact h
  | some update => exact (h.enter guard).prepend update

end Draft

variable {start draft later : Draft} {added : List Element} {stmts : List Stmt}

/-- Adding a statement to a draft adds what the statement evaluates. -/
def Stmt.Collects (stmt : Stmt) : Prop :=
  ∀ (scope : Scope) (labels : List String) (pos : Nat) (start draft later : Draft)
    (added : List Element), start.Collects draft added →
    stmt.build scope labels pos draft = .ok later → start.Collects later (stmt.evaluated pos ++ added)

theorem Stmt.builds_collect (h : ∀ stmt ∈ stmts, Stmt.Collects stmt)
    (hd : start.Collects draft added) (hb : Stmt.builds scope pos stmts draft = .ok later) :
    start.Collects later (Stmt.evaluatedIn pos stmts ++ added) := by
  induction stmts generalizing pos later with
  | nil =>
    cases hb
    exact hd
  | cons stmt stmts ih =>
    obtain ⟨hstmt, hstmts⟩ := List.forall_mem_cons.1 h
    rw [Stmt.builds_cons] at hb
    obtain ⟨rest, hr, hs⟩ := bind_eq_ok.1 hb
    rw [Stmt.evaluatedIn, List.append_assoc]
    exact hstmt _ _ _ _ _ _ _ (ih hstmts hr) hs

theorem Stmt.Collects.buildElse {orElse : Option Stmt} (h : ∀ stmt ∈ orElse, Stmt.Collects stmt)
    (hd : start.Collects draft added)
    (hb : Stmt.buildElse scope pos orElse draft = .ok (later, entry)) :
    start.Collects later (orElse.elim [] (·.evaluated pos) ++ added) := by
  cases orElse with
  | none =>
    cases hb
    exact hd
  | some orElse =>
    obtain ⟨built, hs, he⟩ := bind_eq_ok.1 hb
    cases he
    exact h orElse rfl _ _ _ _ _ _ _ (hd.enter _) hs

theorem Stmt.Collects.optionBuild {init : Option Stmt} (h : ∀ stmt ∈ init, Stmt.Collects stmt)
    (hd : start.Collects draft added) (hb : Stmt.optionBuild scope pos init draft = .ok later) :
    start.Collects later (init.elim [] (·.evaluated pos) ++ added) := by
  cases init with
  | none =>
    cases hb
    exact hd
  | some init => exact h init rfl _ _ _ _ _ _ _ hd hb

theorem Stmt.Collects.buildLoop {body : Stmt} (h : body.Collects) (hd : start.Collects draft added)
    (hb : body.buildLoop scope labels edge head update pos draft = .ok later) :
    start.Collects later (body.evaluated pos ++ (update.toList ++ head :: added)) := by
  obtain ⟨built, hs, he⟩ := bind_eq_ok.1 hb
  cases he
  have hupdate := (hd.addGuard edge head).addUpdate draft.next update
  exact (h _ _ _ _ _ _ _ (hupdate.enter _) hs).wire _

theorem Rescue.build_collects {rescue : Option Rescue}
    (h : ∀ part ∈ rescue, ∀ stmt ∈ Rescue.stmts part, Stmt.Collects stmt)
    (hd : start.Collects draft added)
    (hb : Rescue.build scope exits rescue draft = .ok (later, exits')) :
    start.Collects later (rescue.elim [] Rescue.evaluated ++ added) := by
  cases rescue with
  | none =>
    cases hb
    exact hd
  | some rescue =>
    obtain ⟨built, hs, he⟩ := bind_eq_ok.1 hb
    cases he
    have hbody := Stmt.builds_collect (h rescue rfl) (hd.enter _) hs
    rw [Option.elim_some, Rescue.evaluated, List.append_assoc]
    cases rescue.parameter with
    | none => exact hbody
    | some parameter => exact hbody.prepend parameter

def Clause.bodiesEvaluated (pos : Nat) : List Clause → List Element
  | [] => []
  | ⟨_, test, body⟩ :: clauses =>
    let bodyPos := pos + Expr.optionSize test
    Stmt.evaluatedIn bodyPos body ++ Clause.bodiesEvaluated (bodyPos + Stmt.sizes body) clauses

def Clause.testsEvaluated (pos : Nat) : List Clause → List Element
  | [] => []
  | ⟨_, test, body⟩ :: clauses =>
    let bodyPos := pos + Expr.optionSize test
    Expr.optionEvaluated pos test ++ Clause.testsEvaluated (bodyPos + Stmt.sizes body) clauses

theorem Clause.evaluated_perm (pos : Nat) (clauses : List Clause) :
    (testsEvaluated pos clauses ++ bodiesEvaluated pos clauses).Perm (evaluated pos clauses) := by
  induction clauses generalizing pos with
  | nil => exact .refl _
  | cons clause clauses ih =>
    obtain ⟨_, test, body⟩ := clause
    simp only [testsEvaluated, bodiesEvaluated, evaluated, List.append_assoc]
    refine .append_left _ (.trans ?_ ((ih _).append_left _))
    simp only [← List.append_assoc]
    exact List.perm_append_comm.append_right _

theorem Clause.builds_collect {clauses : List Clause}
    (h : ∀ clause ∈ clauses, ∀ stmt ∈ Clause.body clause, Stmt.Collects stmt)
    (hd : start.Collects draft added)
    (hb : Clause.builds scope after pos clauses draft = .ok (later, entries)) :
    start.Collects later (Clause.bodiesEvaluated pos clauses ++ added) ∧
      entries.length = clauses.length := by
  induction clauses generalizing pos later entries with
  | nil =>
    cases hb
    exact ⟨hd, rfl⟩
  | cons clause clauses ih =>
    obtain ⟨range, test, body⟩ := clause
    obtain ⟨hclause, hclauses⟩ := List.forall_mem_cons.1 h
    rw [Clause.builds_cons] at hb
    obtain ⟨⟨rest, behind⟩, hr, hx⟩ := bind_eq_ok.1 hb
    obtain ⟨built, hs, he⟩ := bind_eq_ok.1 hx
    cases he
    obtain ⟨hrest, hlength⟩ := ih hclauses hr
    rw [bodiesEvaluated, List.append_assoc]
    exact ⟨Stmt.builds_collect hclause (hrest.enter _) hs, congrArg (· + 1) hlength⟩

theorem Clause.addTests_collects {clauses : List Clause} {entries : List Vertex}
    (hl : entries.length = clauses.length) (hd : start.Collects draft added) :
    start.Collects (Clause.addTests other pos (clauses.zip entries) draft).1
      (Clause.testsEvaluated pos clauses ++ added) := by
  induction clauses generalizing pos entries with
  | nil => exact hd
  | cons clause clauses ih =>
    obtain ⟨range, test, body⟩ := clause
    obtain ⟨entry, entries, rfl⟩ := List.exists_cons_of_length_eq_add_one hl
    have hrest := fun pos => @ih pos entries (Nat.succ.inj hl)
    cases test with
    | none => exact hrest _
    | some test => exact ((hrest _).enterBlock _).prepend _

theorem Stmt.collects (stmt : Stmt) : stmt.Collects := by
  induction stmt using Stmt.induction with
  | expression | declaration | function | debugger =>
    intro scope labels pos start draft later added hd hb
    cases hb
    exact hd.prepend _
  | empty =>
    intro scope labels pos start draft later added hd hb
    cases hb
    exact hd
  | withStmt =>
    intro scope labels pos start draft later added hd hb
    cases hb
  | returnStmt | throwStmt =>
    intro scope labels pos start draft later added hd hb
    cases hb
    exact (hd.enter _).prepend _
  | jump range kind label =>
    intro scope labels pos start draft later added hd hb
    rw [Stmt.build_jump] at hb
    obtain ⟨target, ht, he⟩ := bind_eq_ok.1 hb
    cases he
    exact (hd.enter _).prepend _
  | ifStmt range test body orElse ihBody ihElse =>
    intro scope labels pos start draft later added hd hb
    rw [Stmt.build_ifStmt] at hb
    obtain ⟨⟨built, onFalse⟩, helse, hx⟩ := bind_eq_ok.1 hb
    obtain ⟨entered, hs, he⟩ := bind_eq_ok.1 hx
    cases he
    have hother := Stmt.Collects.buildElse ihElse hd helse
    have hbody := ihBody _ _ _ _ _ _ _ (hother.enter _) hs
    rw [Stmt.evaluated_ifStmt, List.append_assoc]
    exact (hbody.enterBlock _).prepend _
  | whileStmt range test body ih =>
    intro scope labels pos start draft later added hd hb
    rw [Stmt.build_whileStmt] at hb
    obtain ⟨built, hs, he⟩ := bind_eq_ok.1 hb
    cases he
    exact ((ih.buildLoop hd hs).enter _).of_perm List.perm_middle
  | doStmt range body test ih =>
    intro scope labels pos start draft later added hd hb
    rw [Stmt.build_doStmt] at hb
    obtain ⟨built, hs, he⟩ := bind_eq_ok.1 hb
    cases he
    rw [Stmt.evaluated, List.append_assoc]
    exact (ih.buildLoop hd hs).enter _
  | forStmt range init test update body ihInit ih =>
    intro scope labels pos start draft later added hd hb
    rw [Stmt.build_forStmt] at hb
    obtain ⟨built, hs, hi⟩ := bind_eq_ok.1 hb
    have hinit := Stmt.Collects.optionBuild ihInit ((ih.buildLoop hd hs).enter _) hi
    exact hinit.of_perm (Stmt.evaluated_forStmt_perm ..)
  | forEach range kind left right body ih =>
    intro scope labels pos start draft later added hd hb
    rw [Stmt.build_forEach] at hb
    obtain ⟨built, hs, he⟩ := bind_eq_ok.1 hb
    cases he
    exact (((ih.buildLoop hd hs).enter _).prepend _).of_perm (List.perm_middle.cons _)
  | tryStmt range block handler finalizer ihBlock ihHandler ihFinalizer =>
    intro scope labels pos start draft later added hd hb
    obtain ⟨finished, exits, caught, exits', built, hfinal, hcatch, hs, rfl⟩ :=
      Stmt.exists_of_build_tryStmt hb
    have hfinished := Rescue.build_collects (Block.forall_rescue ihFinalizer _) hd hfinal
    have hcaught := Rescue.build_collects (Handler.forall_rescue ihHandler _) hfinished hcatch
    rw [Stmt.evaluated_tryStmt, List.append_assoc, List.append_assoc]
    exact (Stmt.builds_collect ihBlock (hcaught.enter _) hs).enter _
  | switchStmt range discriminant clauses ih =>
    intro scope labels pos start draft later added hd hb
    rw [Stmt.build_switchStmt] at hb
    obtain ⟨⟨built, entries⟩, hs, he⟩ := bind_eq_ok.1 hb
    cases he
    obtain ⟨hbodies, hlength⟩ := Clause.builds_collect ih hd hs
    refine (((Clause.addTests_collects hlength hbodies).enter _).prepend _).of_perm ?_
    rw [← List.append_assoc, Stmt.evaluated, List.cons_append]
    exact ((Clause.evaluated_perm _ clauses).append_right _).cons _
  | block range body ih =>
    intro scope labels pos start draft later added hd hb
    rw [Stmt.build_block] at hb
    exact Stmt.builds_collect ih hd hb
  | labeled range label body ih =>
    intro scope labels pos start draft later added hd hb
    rw [Stmt.build_labeled] at hb
    split at hb
    · exact ih _ _ _ _ _ _ _ hd hb
    · exact ih _ _ _ _ _ _ _ (hd.enter _) hb

theorem Body.elements_perm_of_ofBody {body : Body}
    (h : RawGraph.ofBody options body.position body.stmts = .ok raw) :
    raw.elements.Perm body.evaluated := by
  obtain ⟨draft, hb, he⟩ := bind_eq_ok.1 h
  cases he
  have hinitial : Draft.initial.current < Draft.initial.blocks.length := Nat.zero_lt_one
  have hc := Stmt.builds_collect (fun stmt _ => stmt.collects) (.refl hinitial) hb
  have hp := hc.perm
  rwa [List.append_nil, show Draft.initial.elements = [] from rfl, List.append_nil] at hp

namespace RawGraph

variable {α : Type} {graph result : RawGraph α} {place : Nat → Nat}

theorem SplicedTo.elements_eq (h : graph.SplicedTo result place) :
    result.elements = graph.elements := by
  rw [RawGraph.elements, RawGraph.elements, List.flatMap_def, h.elements,
    List.flatten_filter_not_isEmpty, List.flatMap_def]

theorem elements_perm_of_freeze [Ranged α] {frozen : Graph α} (h : graph.freeze = .ok frozen) :
    frozen.elements.Perm graph.elements := by
  obtain ⟨-, hb, -⟩ := freeze_eq_ok.1 h
  have hsame : List.Forall₂ (· = ·) (graph.sourceOrder.map (·.1.elements))
      (frozen.blocks.map (·.elements)) := by
    rw [List.forall₂_map_left_iff, List.forall₂_map_right_iff]
    refine (mapM_eq_ok.1 hb).imp fun numbered block hx => ?_
    obtain ⟨edge, -, he⟩ := bind_eq_ok.1 hx
    rw [← pure_eq_ok.1 he]
  rw [List.forall₂_eq_eq_eq] at hsame
  have hp := (List.mergeSort_perm graph.blocks.zipIdx precedes).flatMap_right (·.1.elements)
  rw [Graph.elements, List.flatMap_def, ← hsame, ← List.flatMap_def]
  refine hp.trans (.of_eq ?_)
  rw [elements, ← List.flatMap_map Prod.fst, List.zipIdx_map_fst]

end RawGraph

/-- The blocks of a graph together hold what its body evaluates. -/
theorem Body.elements_perm {body : Body} {graph : Graph Element} (h : body.graph options = .ok graph) :
    graph.elements.Perm body.evaluated := by
  obtain ⟨raw, spliced, place, hraw, hspliced, hfreeze⟩ := exists_spliced h
  refine (RawGraph.elements_perm_of_freeze hfreeze).trans ?_
  rw [hspliced.elements_eq]
  exact Body.elements_perm_of_ofBody hraw

def Script.graphs (options : FlowOptions) (script : Script) : List (Graph Element) :=
  script.bodies.filterMap fun body => (body.graph options).toOption

theorem Body.elements_subperm (options : FlowOptions) (bodies : List Body) :
    ((bodies.filterMap fun body => (body.graph options).toOption).flatMap Graph.elements).Subperm
      (bodies.flatMap Body.nodes) := by
  induction bodies with
  | nil => exact .refl _
  | cons body bodies ih =>
    rw [List.flatMap_cons]
    cases hg : body.graph options with
    | error error =>
      rw [List.filterMap_cons_none (by rw [hg]; rfl)]
      exact ih.trans (List.sublist_append_right ..).subperm
    | ok graph =>
      rw [List.filterMap_cons_some (by rw [hg]; rfl), List.flatMap_cons]
      have hbody := (elements_perm hg).subperm.trans body.evaluated_sublist.subperm
      exact ((List.subperm_append_right _).2 hbody).trans ((List.subperm_append_left _).2 ih)

/-- The blocks of a graph hold the nodes that its body evaluates, each of them once. No node of a
script is an element of two blocks, whatever bodies they belong to. -/
theorem Body.graph_census (options : FlowOptions) :
    (∀ (body : Body) (graph : Graph Element), body.graph options = .ok graph →
      graph.elements.Perm body.evaluated ∧ body.evaluated.Sublist body.nodes ∧
        (graph.elements.map (·.position)).Nodup) ∧
    ∀ script : Script,
      ((script.graphs options).flatMap Graph.elements).Subperm (Event.elements script.walk) ∧
        (((script.graphs options).flatMap Graph.elements).map (·.position)).Nodup := by
  constructor
  · intro body graph hg
    have hp := Body.elements_perm hg
    exact ⟨hp, body.evaluated_sublist, (hp.map _).nodup_iff.2 body.evaluated_nodup⟩
  · intro script
    have hs := Body.elements_subperm options script.bodies
    refine ⟨hs.trans script.nodes_perm.subperm, ?_⟩
    obtain ⟨elements, hp, hsub⟩ := hs
    exact (hp.map _).nodup_iff.1 ((hsub.map _).nodup script.nodes_nodup)

namespace Body

/-- A loop without a test that is left at once, and a function behind it:
`for (;;) { break; a; } function f() { b; }` -/
def leftAtOnce : Body :=
  ⟨.script, ⟨0, 42⟩, 0, [
    .forStmt ⟨0, 22⟩ none none none (.block ⟨9, 22⟩ [
      .jump ⟨11, 17⟩ .break none,
      .expression ⟨18, 20⟩ (.name ⟨18, 19⟩ "a")]),
    .function ⟨23, 42⟩ ⟨"f", ⟨32, 33⟩⟩ [] [.expression ⟨38, 40⟩ (.name ⟨38, 39⟩ "b")]]⟩

theorem graph_census_leftAtOnce :
    ∃ graph, leftAtOnce.graph {} = .ok graph ∧ graph.elements.Perm leftAtOnce.evaluated ∧
      leftAtOnce.evaluated.Sublist leftAtOnce.nodes ∧ (graph.elements.map (·.position)).Nodup ∧
      leftAtOnce.evaluated.map (·.position) = [0, 2, 4, 5] := by
  obtain ⟨graph, hgraph⟩ : ∃ graph, leftAtOnce.graph {} = .ok graph := by
    have hfails := leftAtOnce.graph_failsWithLast {}
    rwa [show leftAtOnce.offences {} = [] by decide] at hfails
  obtain ⟨hperm, hsublist, hnodup⟩ := (graph_census {}).1 leftAtOnce graph hgraph
  exact ⟨graph, hgraph, hperm, hsublist, hnodup, by decide⟩

end Body

end FlowLint
