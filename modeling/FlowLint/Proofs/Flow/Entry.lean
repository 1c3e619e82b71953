import FlowLint.Proofs.Flow.Beginning
import FlowLint.Proofs.Flow.ControlFlow
import FlowLint.Proofs.Flow.SourceOrder

/-!
Where a graph is entered. All runs of a body begin with the same node, and the graph with its block;
a body without such a node has no blocks at all. The node is the first one in the source, and its
block the first one of the graph, unless a loop is entered aside.
-/
namespace FlowLint
set_option autoImplicit true

open Piece (statement)

namespace Element

/-- The first of some elements begins first. -/
def Leads (elements : List Element) : Prop :=
  ∀ first ∈ elements.head?, ∀ element ∈ elements, first.range.start ≤ element.range.start

/-- Elements are spread over a row, if it is lined up, and the first of them begins first. -/
structure Fronts (row : List Piece) (elements : List Element) : Prop where
  fills : Fills row elements
  leads : Piece.Lined row → Leads elements

namespace Fronts

variable {piece : Piece} {row row' : List Piece} {first : Element}
  {elements elements' : List Element}

theorem nil : Fronts row [] :=
  ⟨.nil, fun _ => nofun⟩

theorem hold (hr : first.range = piece.range) (h : Fills [piece] (first :: elements)) :
    Fronts [piece] (first :: elements) := by
  refine ⟨h, fun hl => ?_⟩
  rintro _ ⟨⟩ element hm
  obtain ⟨outer, ho, hstart, -⟩ := (h hl).inside element hm
  rwa [List.mem_singleton.1 ho, ← hr] at hstart

theorem before (h : Fronts row (first :: elements)) (h' : Fills row' elements') :
    Fronts (row ++ row') (first :: elements ++ elements') := by
  refine ⟨h.fills.append h', fun hl => ?_⟩
  obtain ⟨hrow, hrow', hcross⟩ := Piece.lined_append.1 hl
  rintro _ ⟨⟩
  refine List.forall_mem_append.2 ⟨h.leads hrow first rfl, fun element hm => ?_⟩
  obtain ⟨piece, hp, -, hstop⟩ := (h.fills hrow).inside first (List.mem_cons_self ..)
  obtain ⟨piece', hp', hstart, -⟩ := (h' hrow').inside element hm
  have hne := (h.fills hrow).nonempty first (List.mem_cons_self ..)
  have hbetween := hcross piece hp piece' hp'
  omega

theorem append (h : Fronts row elements) (h' : Fronts row' elements') :
    Fronts (row ++ row') (elements ++ elements') := by
  cases elements with
  | nil => exact ⟨h.fills.append h'.fills, fun hl => h'.leads (Piece.lined_append.1 hl).2.1⟩
  | cons first elements => exact h.before h'.fills

theorem wrap (ho : piece.Ordered) (h : Fronts piece.children elements) : Fronts [piece] elements :=
  ⟨.wrap ho h.fills, fun _ => h.leads ho.lined⟩

end Fronts

/-- No loop among some nodes is entered aside. -/
def Straight (elements : List Element) : Prop :=
  ∀ element ∈ elements, element.entersAside = false

end Element

open Element (Fills Fronts Straight)

theorem Expr.fronts (pos : Nat) (expr : Expr) :
    Fronts [.expression expr] [⟨pos, .expression expr⟩] :=
  .hold rfl (expr.fills pos)

theorem Expr.optionEvaluated_fronts (pos : Nat) (expr : Option Expr) :
    Fronts (expr.toList.map .expression) (optionEvaluated pos expr) := by
  cases expr with
  | none => exact .nil
  | some expr => exact expr.fronts pos

/-- The first node that a statement evaluates is the first one in the source, unless a loop in it is
entered aside. -/
def Stmt.Fronts (stmt : Stmt) : Prop :=
  ∀ pos, Straight (Event.elements (stmt.walk .shallow pos)) →
    Element.Fronts [statement stmt] (stmt.evaluated pos)

theorem Stmt.evaluatedIn_fronts {stmts : List Stmt} (h : ∀ stmt ∈ stmts, Stmt.Fronts stmt)
    (pos : Nat) (hn : Straight (Event.elements (walks .shallow pos stmts))) :
    Element.Fronts (stmts.map statement) (evaluatedIn pos stmts) := by
  induction stmts generalizing pos with
  | nil => exact .nil
  | cons stmt stmts ih =>
    obtain ⟨hstmt, hstmts⟩ := List.forall_mem_cons.1 h
    rw [walks, Event.elements_append, Straight, List.forall_mem_append] at hn
    exact (hstmt pos hn.1).append (ih hstmts _ hn.2)

theorem Stmt.optionEvaluated_fronts {stmt : Option Stmt} (h : ∀ part ∈ stmt, Stmt.Fronts part)
    (pos : Nat) (hn : Straight (Event.elements (optionWalk .shallow pos stmt))) :
    Element.Fronts (stmt.toList.map statement) (stmt.elim [] (·.evaluated pos)) := by
  cases stmt with
  | none => exact .nil
  | some stmt => exact h stmt rfl pos hn

theorem Block.evaluated_fronts {block : Block} (ho : (Piece.block block).Ordered)
    (h : ∀ stmt ∈ block.body, Stmt.Fronts stmt) (pos : Nat)
    (hn : Straight (Event.elements (block.walk .shallow pos))) :
    Fronts [.block block] (Stmt.evaluatedIn pos block.body) := by
  obtain ⟨_, body⟩ := block
  exact .wrap ho (Stmt.evaluatedIn_fronts h pos hn)

theorem Block.optionEvaluated_fronts {block : Option Block}
    (ho : ∀ part ∈ block, (Piece.block part).Ordered)
    (h : ∀ part ∈ block, ∀ stmt ∈ Block.body part, Stmt.Fronts stmt) (pos : Nat)
    (hn : Straight (Event.elements (optionWalk .shallow pos block))) :
    Fronts (block.toList.map .block) ((block.map (·.rescue pos)).elim [] Rescue.evaluated) := by
  cases block with
  | none => exact .nil
  | some block => exact evaluated_fronts (ho block rfl) (h block rfl) pos hn

theorem Handler.optionEvaluated_fronts {handler : Option Handler}
    (ho : ∀ part ∈ handler, (Piece.handler part).Ordered ∧ (Piece.block part.body).Ordered)
    (h : ∀ part ∈ handler, ∀ stmt ∈ Block.body (Handler.body part), Stmt.Fronts stmt) (pos : Nat)
    (hn : Straight (Event.elements (optionWalk .shallow pos handler))) :
    Fronts (handler.toList.map .handler)
      ((handler.map (·.rescue pos)).elim [] Rescue.evaluated) := by
  rcases handler with _ | ⟨_, parameter, body⟩
  · exact .nil
  · obtain ⟨hhandler, hbody⟩ := ho _ rfl
    rw [optionWalk, Event.elements_handler, Event.elements_append, Straight,
      List.forall_mem_append] at hn
    exact .wrap hhandler ((Expr.optionEvaluated_fronts pos parameter).append
      (Block.evaluated_fronts hbody (h _ rfl) _ hn.2))

theorem Upholds.fronts {stmt : Stmt} (h : Upholds Piece.Ordered stmt) : stmt.Fronts := by
  induction h with
  | expression h => exact fun _ _ => .wrap h (Expr.fronts _ _)
  | declaration | function | debugger | jump | returnStmt | throwStmt =>
    exact fun _ _ => .hold rfl (.whole rfl rfl)
  | empty | withStmt => exact fun _ _ => .nil
  | @ifStmt range test body orElse h hb he ihb ihe =>
    intro pos hn
    have helse := Stmt.optionEvaluated_fills (fun stmt hm => (he stmt hm).fills)
      (pos + 1 + test.size + body.size)
    rw [Stmt.evaluated_ifStmt]
    exact .wrap h ((Expr.fronts _ test).before ((hb.fills _).append helse))
  | @whileStmt range test body h hb ih =>
    exact fun _ _ => .wrap h ((Expr.fronts _ test).before (hb.fills _))
  | @doStmt range body test h hb ih =>
    intro pos hn
    simp only [Stmt.walk, Event.elements_node, Event.elements_append, Straight,
      List.forall_mem_cons, List.forall_mem_append] at hn
    exact .wrap h ((ih _ hn.2.1).append (Expr.fronts _ test))
  | @forStmt range init test update body h hi hb ihi ihb =>
    intro pos hn
    have hfills := (Upholds.forStmt h hi hb).fills pos
    rw [Stmt.evaluated_forStmt] at hfills ⊢
    cases test with
    | none =>
      cases init with
      | none => exact .hold rfl hfills
      | some init => cases hn _ (List.mem_cons_self ..)
    | some test =>
      let testPos := pos + 1 + Stmt.optionSize init
      let bodyPos := testPos + test.size
      simp only [Stmt.walk, Event.elements_node, Event.elements_append, Straight,
        List.forall_mem_cons, List.forall_mem_append] at hn
      have hinit := Stmt.optionEvaluated_fronts ihi _ hn.2.1.1.1
      have hbehind := ((Expr.optionEvaluated_fills (bodyPos + body.size) update).append
        (hb.fills bodyPos)).perm List.perm_append_comm
      have hparts := hinit.append ((test.fronts testPos).before hbehind)
      apply Fronts.wrap h
      simpa [Piece.children, Stmt.children, Expr.optionSize, Expr.optionEvaluated, testPos, bodyPos]
        using hparts
  | @forEach range kind left right body h hb ih =>
    intro pos hn
    cases hn _ (List.mem_cons_self ..)
  | @tryStmt range tried handler finalizer h ht hb hh hc hf hs ihb ihc ihs =>
    intro pos hn
    simp only [Stmt.walk, Event.elements_node, Event.elements_append, Straight,
      List.forall_mem_cons, List.forall_mem_append] at hn
    obtain ⟨-, ⟨hblock, hhandler⟩, hfinalizer⟩ := hn
    have hcaught := Handler.optionEvaluated_fronts hh ihc _ hhandler
    have hfinal := Block.optionEvaluated_fronts hf ihs _ hfinalizer
    obtain ⟨_, body⟩ := tried
    rw [Stmt.evaluated_tryStmt, List.append_assoc]
    exact .wrap h ((Block.evaluated_fronts ht ihb _ hblock).append (hcaught.append hfinal))
  | @switchStmt range discriminant clauses h hc hb ih =>
    intro pos hn
    have hclauses := Clause.evaluated_fills hc
      (fun clause hm stmt hs => (hb clause hm stmt hs).fills) (pos + 1 + discriminant.size)
    exact .wrap h ((Expr.fronts _ discriminant).before hclauses)
  | @block range stmts h hb ih =>
    intro pos hn
    simp only [Stmt.walk, Event.elements_node, Event.elements_body, Straight,
      List.forall_mem_cons] at hn
    exact .wrap h (Stmt.evaluatedIn_fronts ih _ hn.2)
  | @labeled range label body h hb ih =>
    intro pos hn
    simp only [Stmt.walk, Event.elements_node, Straight, List.forall_mem_cons] at hn
    have hlabel : Fronts [.identifier label] [] := .nil
    exact .wrap h (hlabel.append (ih _ hn.2))

variable {body : Body} {graph : Graph Element}

namespace Body

/-- All runs of a body begin with the same node, if it evaluates any. -/
theorem exists_entry (body : Body) : ∃ entry, Element.Enters entry body.nodes body.evaluated ∧
    ∀ options, (body.runs options).Begins entry := by
  obtain ⟨entry, henters, hbegins⟩ :=
    Stmt.runsAll_begin (fun stmt (_ : stmt ∈ body.stmts) => stmt.begins) body.position
  exact ⟨entry, henters, fun options => hbegins options []⟩

theorem reads_start_iff (h : body.graph options = .ok graph) :
    graph.chart.Reads graph.start word ending ↔
      ∃ outcome, body.runs options word outcome ∧ outcome.Shows ending := by
  obtain ⟨raw, spliced, place, place', hraw, hspliced, hfrozen⟩ := exists_stages h
  rw [← hfrozen.reads_start_iff hspliced.inRange, ← hspliced.reads_start_iff]
  exact RawGraph.ofBody_reads_iff hraw

theorem start_within (h : body.graph options = .ok graph) : graph.start.Within graph.size := by
  obtain ⟨raw, spliced, place, place', hraw, hspliced, hfrozen⟩ := exists_stages h
  rw [hfrozen.start]
  exact hfrozen.within_map hspliced.inRange.2

theorem start_eq_exit_iff (h : body.graph options = .ok graph) :
    graph.start = .exit ↔ graph.blocks = [] := by
  constructor
  · intro hs
    obtain ⟨entry, henters, hbegins⟩ := body.exists_entry
    have hfinish : graph.chart.Reads graph.start [] .finished := hs ▸ .finish
    obtain ⟨outcome, hruns, hshows⟩ := (reads_start_iff h).1 hfinish
    have hafter := hbegins options _ _ hruns
    cases entry with
    | none => exact (blocks_eq_nil_iff h).2 (henters.empty rfl)
    | some element =>
      rcases hafter with ⟨-, rfl⟩ | ⟨rest, hrest⟩
      · cases hshows
      · cases hrest
  · intro hn
    have hwithin := start_within h
    rw [Graph.size, hn] at hwithin
    cases hs : graph.start with
    | exit => rfl
    | block index =>
      rw [hs] at hwithin
      exact absurd hwithin (Nat.not_lt_zero index)

/-- The block that a graph is entered at begins with the node that all runs begin with. -/
theorem head?_of_start (h : body.graph options = .ok graph) (hs : graph.start = .block index)
    (hb : graph.blocks[index]? = some block) (he : (body.runs options).Begins entry) :
    block.elements.head? = entry := by
  have hne := elements_ne_nil h block (List.mem_of_getElem? hb)
  obtain ⟨first, rest, helements⟩ := List.exists_cons_of_ne_nil hne
  have hread : graph.chart.Reads graph.start [.element first] .interrupted := by
    have hfirst : graph.chart.elements (.block index) = first :: rest := by
      simp [Graph.chart, hb, helements]
    rw [hs]
    apply Chart.Reads.stop
    rw [hfirst]
    exact List.cons_prefix_cons.2 ⟨rfl, List.nil_prefix⟩
  obtain ⟨outcome, hruns, -⟩ := (reads_start_iff h).1 hread
  have hafter := he _ _ hruns
  cases entry with
  | none => cases hafter.1
  | some element =>
    rcases hafter with ⟨hnil, -⟩ | ⟨rest', hrest⟩
    · cases hnil
    · cases hrest
      rw [helements]
      rfl

theorem InOrder.leads (h : body.InOrder) (hn : Straight body.nodes) :
    Element.Leads body.evaluated :=
  (Stmt.evaluatedIn_fronts (fun stmt hm => (h.upholds stmt hm).fronts) _ hn).leads h.lined

theorem InOrder.start_eq (h : body.InOrder) (hg : body.graph options = .ok graph)
    (hn : Straight body.nodes) (hs : graph.start = .block index) : index = 0 := by
  obtain ⟨entry, henters, hbegins⟩ := body.exists_entry
  have hlt : index < graph.blocks.length := by
    have hwithin := start_within hg
    rwa [hs] at hwithin
  have hhead := head?_of_start hg hs (List.getElem?_eq_getElem hlt) (hbegins options)
  rw [henters.head hn] at hhead
  refine Nat.eq_zero_of_not_pos fun hpos => ?_
  have hzero : 0 < graph.blocks.length := Nat.lt_trans hpos hlt
  have hbefore := List.pairwise_iff_getElem.1 (h.blocks_before hg) 0 index hzero hlt hpos
  have hne := elements_ne_nil hg _ (List.getElem_mem hzero)
  have hne' := elements_ne_nil hg _ (List.getElem_mem hlt)
  have hlater := hbefore _ (List.head?_eq_some_head hne) _ (List.head?_eq_some_head hne')
  have hmem : graph.blocks[0].elements.head hne ∈ body.evaluated :=
    (elements_perm hg).mem_iff.1
      (List.mem_flatMap.2 ⟨_, List.getElem_mem hzero, List.head_mem hne⟩)
  have hfirst := h.leads hn _ (hhead ▸ List.head?_eq_some_head hne') _ hmem
  omega

end Body

namespace Script

/-- Where the graphs of a script are entered. A graph is entered at the exit just when it has no
blocks. Otherwise it is entered at its first block, if its body, outside of the functions in it,
loops over no subject and has no `for` with an initialiser and without a test. -/
theorem graph_start {script : Script} (h : Script.parse source = .ok script)
    (hb : body ∈ script.bodies) (hg : body.graph options = .ok graph) :
    (graph.start = .exit ↔ graph.blocks = []) ∧
      ((∀ element ∈ body.nodes, element.entersAside = false) → graph.blocks ≠ [] →
        graph.start = .block 0) := by
  refine ⟨Body.start_eq_exit_iff hg, fun hn hne => ?_⟩
  cases hs : graph.start with
  | exit => exact absurd ((Body.start_eq_exit_iff hg).1 hs) hne
  | block index => rw [(inOrder_of_parse h hb).start_eq hg hn hs]

/-- Statements that evaluate nothing in front of one that does, behind code that no run gets to. -/
def emptyFirst : String :=
  "l: \x7b try \x7b\x7d finally \x7b\x7d do \x7b break l; a; \x7d while (b); \x7d for (;;) c"

theorem graph_start_emptyFirst :
    ∃ script graph, Script.parse emptyFirst = .ok script ∧
      Body.ofScript script ∈ script.bodies ∧ (Body.ofScript script).graph {} = .ok graph ∧
      (∀ element ∈ (Body.ofScript script).nodes, element.entersAside = false) ∧
      graph.blocks ≠ [] ∧ graph.start = .block 0 := by
  have hfacts : (Script.parse emptyFirst).toOption.map (fun script =>
      let body := Body.ofScript script
      ((body.offences {}).length, body.nodes.all (! ·.entersAside), body.evaluated.length)) =
      some (0, true, 5) := by
    decide +kernel
  obtain ⟨script, hs, hfacts⟩ := exists_ok_of_map hfacts
  simp only [Prod.mk.injEq] at hfacts
  obtain ⟨hoffences, hstraight, hfive⟩ := hfacts
  obtain ⟨graph, hg⟩ : ∃ graph, (Body.ofScript script).graph {} = .ok graph :=
    Body.exists_graph (List.eq_nil_of_length_eq_zero hoffences)
  have hb : Body.ofScript script ∈ script.bodies := List.mem_cons_self ..
  have hn : ∀ element ∈ (Body.ofScript script).nodes, element.entersAside = false := by
    simpa using hstraight
  have hne : graph.blocks ≠ [] := by
    intro hnil
    rw [(Body.blocks_eq_nil_iff hg).1 hnil] at hfive
    cases hfive
  exact ⟨script, graph, hs, hb, hg, hn, hne, (graph_start hs hb hg).2 hn hne⟩

end Script

end FlowLint
