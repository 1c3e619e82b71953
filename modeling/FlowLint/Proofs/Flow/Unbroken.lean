import FlowLint.Proofs.Flow.Failure
import FlowLint.Proofs.Flow.Growth
import FlowLint.Proofs.Flow.Reach
import FlowLint.Proofs.Tree.Positions

namespace FlowLint
set_option autoImplicit true

/-- Nothing that follows has to be reached through a statement: a jump leads elsewhere, and a `for`
without a test never ends. A `with` counts too, for it has no graph. -/
def Stmt.breaksOff : Stmt → Bool
  | .jump .. | .returnStmt .. | .throwStmt .. | .withStmt .. | .forStmt _ _ none _ _ => true
  | _ => false

def Element.breaksOff (element : Element) : Bool :=
  match element.node with
  | .statement stmt => stmt.breaksOff
  | .expression _ => false

def Event.Unbroken (events : List Event) : Prop :=
  ∀ element ∈ elements events, element.breaksOff = false

def Body.Unbroken (body : Body) : Prop :=
  ∀ element ∈ body.nodes, element.breaksOff = false

instance (body : Body) : Decidable body.Unbroken :=
  inferInstanceAs (Decidable (∀ _ ∈ body.nodes, _))

namespace Event

@[simp] theorem unbroken_append (events events' : List Event) :
    Unbroken (events ++ events') ↔ Unbroken events ∧ Unbroken events' := by
  rw [Unbroken, elements_append, List.forall_mem_append]
  exact Iff.rfl

@[simp] theorem unbroken_statement (pos : Nat) (stmt : Stmt) (events : List Event) :
    Unbroken (node ⟨pos, .statement stmt⟩ :: events) ↔
      stmt.breaksOff = false ∧ Unbroken events := by
  rw [Unbroken, elements_node, List.forall_mem_cons]
  exact Iff.rfl

@[simp] theorem unbroken_body (stmts : List Stmt) (events : List Event) :
    Unbroken (body stmts :: events) ↔ Unbroken events :=
  Iff.rfl

@[simp] theorem unbroken_handler (range : Range) (events : List Event) :
    Unbroken (handler range :: events) ↔ Unbroken events :=
  Iff.rfl

@[simp] theorem unbroken_clause (range : Range) (isDefault : Bool) (events : List Event) :
    Unbroken (clause range isDefault :: events) ↔ Unbroken events :=
  Iff.rfl

end Event

variable {scope : Scope} {draft later : Draft} {stmts : List Stmt} {after : Vertex}

/-- What is added for a statement is reached from its entry, and leads on to what follows it. -/
def Stmt.GoesOn (stmt : Stmt) : Prop :=
  ∀ (scope : Scope) (labels : List String) (pos : Nat) (draft : Draft),
    Event.Unbroken (stmt.walk .shallow pos) →
      Succeeds (stmt.build scope labels pos draft) fun later =>
        draft.Flows later draft.here later.here

theorem Stmt.builds_goOn (h : ∀ stmt ∈ stmts, stmt.GoesOn)
    (hu : Event.Unbroken (Stmt.walks .shallow pos stmts)) :
    Succeeds (Stmt.builds scope pos stmts draft) fun later =>
      draft.Flows later draft.here later.here := by
  induction stmts generalizing pos with
  | nil => exact .ok (.refl _ _)
  | cons stmt stmts ih =>
    obtain ⟨hstmt, hstmts⟩ := List.forall_mem_cons.1 h
    rw [walks, Event.unbroken_append] at hu
    rw [builds_cons]
    apply (ih hstmts hu.2).bind
    intro rest hrest
    obtain ⟨built, hb, hbuilt⟩ := hstmt scope [] pos rest hu.1
    exact ⟨built, hb, hrest.trans hbuilt⟩

/-- Statements in front of a new block lead on to where it does. -/
theorem Stmt.builds_enter_goOn (h : ∀ stmt ∈ stmts, stmt.GoesOn)
    (hu : Event.Unbroken (Stmt.walks .shallow pos stmts)) :
    Succeeds (Stmt.builds scope pos stmts (draft.enter after)) fun later =>
      draft.Flows later after later.here := by
  obtain ⟨later, hb, hlater⟩ := Stmt.builds_goOn h hu
  exact ⟨later, hb, (Draft.Flows.enter _ _).trans hlater⟩

theorem Stmt.GoesOn.enter {stmt : Stmt} (h : stmt.GoesOn) (labels : List String)
    (hu : Event.Unbroken (stmt.walk .shallow pos)) :
    Succeeds (stmt.build scope labels pos (draft.enter after)) fun later =>
      draft.Flows later after later.here := by
  obtain ⟨later, hb, hlater⟩ := h scope labels pos _ hu
  exact ⟨later, hb, (Draft.Flows.enter _ _).trans hlater⟩

theorem Stmt.GoesOn.buildElse {orElse : Option Stmt} (h : ∀ stmt ∈ orElse, stmt.GoesOn)
    (hu : Event.Unbroken (Stmt.optionWalk .shallow pos orElse)) :
    Succeeds (Stmt.buildElse scope pos orElse draft) fun (later, entry) =>
      draft.Flows later draft.here entry := by
  cases orElse with
  | none => exact .ok (.refl _ _)
  | some orElse => exact ((h orElse rfl).enter [] hu).bind fun later hlater => .ok hlater

theorem Stmt.GoesOn.optionBuild {init : Option Stmt} (h : ∀ stmt ∈ init, stmt.GoesOn)
    (hu : Event.Unbroken (Stmt.optionWalk .shallow pos init)) :
    Succeeds (Stmt.optionBuild scope pos init draft) fun later =>
      draft.Flows later draft.here later.here := by
  cases init with
  | none => exact .ok (.refl _ _)
  | some init => exact h init rfl scope [] pos draft hu

theorem Stmt.GoesOn.buildLoop {body : Stmt} (h : body.GoesOn)
    (hu : Event.Unbroken (body.walk .shallow pos)) :
    Succeeds (body.buildLoop scope labels (.branch none draft.here) head update pos draft)
      fun later =>
        draft.Flows later draft.here draft.next ∧ later.Reaches later.here draft.next := by
  have hguard : draft.Flows (draft.addGuard (.branch none draft.here) head) draft.here draft.next :=
    .addGuard draft head (List.mem_singleton_self _)
  have hupdate := Draft.Flows.addUpdate (draft.addGuard (.branch none draft.here) head) draft.next
    update
  apply (h.enter [] hu).bind
  intro built hbuilt
  apply Succeeds.ok
  have hinner := hupdate.trans hbuilt
  have hall := (hguard.trans hinner).wire (Nat.le_refl _)
  have hwired : (built.wire draft.blocks.length).edge? draft.blocks.length =
      some (.branch (some built.here) draft.here) := by
    apply Draft.edge?_wire
    rw [hinner.edge _ (by simp), Draft.edge?_addGuard]
  exact ⟨hall.of_reaches (Draft.reaches_of_mem_targets hwired (List.mem_cons_self ..)),
    hinner.onward.wire _⟩

def Rescue.Unbroken (rescue : Rescue) : Prop :=
  Event.Unbroken (Stmt.walks .shallow rescue.position rescue.stmts)

theorem Handler.unbroken_optionWalk (pos : Nat) (handler : Option Handler) :
    Event.Unbroken (optionWalk .shallow pos handler) →
      ∀ part ∈ handler.map (·.rescue pos), Rescue.Unbroken part := by
  rcases handler with _ | ⟨_, parameter, ⟨_, caught⟩⟩
  · simp
  · simp [optionWalk, Block.walk, Rescue.Unbroken, rescue]

theorem Block.unbroken_optionWalk (pos : Nat) (block : Option Block) :
    Event.Unbroken (optionWalk .shallow pos block) →
      ∀ part ∈ block.map (·.rescue pos), Rescue.Unbroken part := by
  rcases block with _ | ⟨_, final⟩
  · simp
  · simp [optionWalk, Block.walk, Rescue.Unbroken, rescue]

theorem Rescue.build_goesOn {rescue : Option Rescue}
    (h : ∀ part ∈ rescue, ∀ stmt ∈ Rescue.stmts part, Stmt.GoesOn stmt)
    (hu : ∀ part ∈ rescue, Rescue.Unbroken part) (he : exits.1 = draft.here) :
    Succeeds (Rescue.build scope exits rescue draft) fun (later, exits') =>
      exits'.1 = later.here ∧ draft.Flows later draft.here later.here := by
  cases rescue with
  | none => exact .ok ⟨he, .refl _ _⟩
  | some rescue =>
    apply (Stmt.builds_enter_goOn (h rescue rfl) (hu rescue rfl)).bind
    intro later hlater
    rw [he] at hlater
    cases rescue.parameter with
    | none => exact .ok ⟨rfl, hlater⟩
    | some parameter => exact .ok ⟨rfl, hlater.prepend parameter⟩

/-- Each clause falls through to the next, so all of them are reached from the first. -/
theorem Clause.builds_goOn {clauses : List Clause}
    (h : ∀ clause ∈ clauses, ∀ stmt ∈ Clause.body clause, Stmt.GoesOn stmt)
    (hu : Event.Unbroken (Clause.walks .shallow pos clauses)) :
    Succeeds (Clause.builds scope after pos clauses draft) fun (later, entries) =>
      entries.length = clauses.length ∧ draft.Flows later after (entries.headD after) := by
  induction clauses generalizing pos with
  | nil => exact .ok ⟨rfl, .refl _ _⟩
  | cons clause clauses ih =>
    obtain ⟨range, test, body⟩ := clause
    obtain ⟨hclause, hclauses⟩ := List.forall_mem_cons.1 h
    simp only [walks, List.cons_append, List.append_assoc, Event.unbroken_clause,
      Event.unbroken_append, Event.unbroken_body] at hu
    rw [builds_cons]
    apply (ih hclauses hu.2.2).bind
    rintro ⟨rest, behind⟩ hrest
    apply (Stmt.builds_enter_goOn hclause hu.2.1).bind
    intro built hbuilt
    exact .ok ⟨congrArg (· + 1) hrest.1, hrest.2.trans hbuilt⟩

/-- The tests are reached from the first of them, and the last one leads on to `other`. -/
theorem Clause.addTests_goOn (other : Vertex) (pos : Nat) (clauses : List (Clause × Vertex))
    (draft : Draft) :
    draft.Flows (addTests other pos clauses draft).1 other
      (addTests other pos clauses draft).2 := by
  induction clauses generalizing pos with
  | nil => exact .refl draft other
  | cons clause clauses ih =>
    obtain ⟨⟨range, test, body⟩, entry⟩ := clause
    cases test with
    | none => exact ih _
    | some test =>
      apply ((ih _).trans (.enterBlock _ _)).prepend
      exact List.mem_cons_of_mem _ (List.mem_singleton_self _)

/-- The first clause is reached from the first test, or is itself where the tests lead on to. -/
theorem Clause.addTests_reaches_head {clauses : List Clause} {entries : List Vertex}
    (hl : entries.length = clauses.length)
    (ho : (Clause.defaultEntry? clauses entries).getD after = other) (pos : Nat) (draft : Draft) :
    (addTests other pos (clauses.zip entries) draft).1.Reaches
      (addTests other pos (clauses.zip entries) draft).2 (entries.headD after) := by
  cases clauses with
  | nil =>
    obtain rfl := List.eq_nil_of_length_eq_zero hl
    obtain rfl : after = other := ho
    exact .refl
  | cons clause clauses =>
    obtain ⟨range, test, body⟩ := clause
    obtain ⟨entry, entries, rfl⟩ := List.exists_cons_of_length_eq_add_one hl
    cases test with
    | none =>
      obtain rfl : entry = other := ho
      exact (Clause.addTests_goOn ..).onward
    | some test =>
      exact ((Draft.Flows.enterBlock _ (List.mem_cons_self ..)).prepend _).onward

theorem Stmt.goesOn (stmt : Stmt) : stmt.GoesOn := by
  induction stmt using Stmt.induction with
  | expression | declaration | function | debugger =>
    intro scope labels pos draft hu
    exact .ok ((Draft.Flows.refl draft _).prepend _)
  | empty =>
    intro scope labels pos draft hu
    exact .ok (.refl _ _)
  | withStmt | returnStmt | throwStmt | jump =>
    intro scope labels pos draft hu
    cases (Event.unbroken_statement ..).1 hu |>.1
  | ifStmt range test body orElse ihBody ihElse =>
    intro scope labels pos draft hu
    rw [Stmt.build_ifStmt]
    simp only [walk, Event.unbroken_statement, Event.unbroken_append] at hu
    obtain ⟨-, ⟨-, hbody⟩, helse⟩ := hu
    apply (Stmt.GoesOn.buildElse ihElse helse).bind
    rintro ⟨built, onFalse⟩ hfalse
    apply (ihBody.enter [] hbody).bind
    intro entered htrue
    apply Succeeds.ok
    have hbranch : entered.Flows (entered.enterBlock (.branch (some entered.here) onFalse))
        entered.here _ := .enterBlock entered (List.mem_cons_self ..)
    -- The test leads to both parts, so what was added for the first of them is reached as well.
    apply (hfalse.join (htrue.trans hbranch) _).prepend
    apply Draft.reaches_of_mem_targets (Draft.edge?_enterBlock ..)
    exact List.mem_cons_of_mem _ (List.mem_singleton_self _)
  | whileStmt range test body ih =>
    intro scope labels pos draft hu
    rw [Stmt.build_whileStmt]
    simp only [walk, Event.unbroken_statement, Event.unbroken_append] at hu
    apply (ih.buildLoop hu.2.2).bind
    intro built hbuilt
    exact .ok (hbuilt.1.trans (.enter _ _))
  | doStmt range body test ih =>
    intro scope labels pos draft hu
    rw [Stmt.build_doStmt]
    simp only [walk, Event.unbroken_statement, Event.unbroken_append] at hu
    apply (ih.buildLoop hu.2.1).bind
    intro built hbuilt
    -- This loop is entered at its body, from which its guard is reached.
    exact .ok ((hbuilt.1.of_reaches hbuilt.2).trans (.enter _ _))
  | forStmt range init test update body ihInit ih =>
    intro scope labels pos draft hu
    rw [Stmt.build_forStmt]
    simp only [walk, Event.unbroken_statement, Event.unbroken_append] at hu
    obtain ⟨hends, ⟨⟨hinit, -⟩, hbody⟩, -⟩ := hu
    cases test with
    | none => cases hends
    | some test =>
      apply (ih.buildLoop hbody).bind
      intro built hbuilt
      obtain ⟨later, hb, hlater⟩ := Stmt.GoesOn.optionBuild ihInit hinit
      exact ⟨later, hb, (hbuilt.1.trans (.enter _ _)).trans hlater⟩
  | forEach range kind left right body ih =>
    intro scope labels pos draft hu
    rw [Stmt.build_forEach]
    simp only [walk, Event.unbroken_statement, Event.unbroken_append] at hu
    apply (ih.buildLoop hu.2.2).bind
    intro built hbuilt
    exact .ok ((hbuilt.1.trans (.enter _ _)).prepend _)
  | tryStmt range block handler finalizer ihBlock ihHandler ihFinalizer =>
    intro scope labels pos draft hu
    rw [Stmt.build_tryStmt]
    obtain ⟨blockRange, body⟩ := block
    simp only [walk, Block.walk, Event.unbroken_statement, Event.unbroken_append,
      Event.unbroken_body] at hu
    obtain ⟨-, ⟨hbody, hhandler⟩, hfinalizer⟩ := hu
    apply (Rescue.build_goesOn (Block.forall_rescue ihFinalizer _)
      (Block.unbroken_optionWalk _ _ hfinalizer) rfl).bind
    rintro ⟨finished, exits⟩ hfinished
    apply (Rescue.build_goesOn (Handler.forall_rescue ihHandler _)
      (Handler.unbroken_optionWalk _ _ hhandler) hfinished.1).bind
    rintro ⟨caught, exits'⟩ hcaught
    apply (Stmt.builds_enter_goOn ihBlock hbody).bind
    intro built hbuilt
    rw [hcaught.1] at hbuilt
    have hrescues := hfinished.2.trans hcaught.2
    exact .ok ((hrescues.trans hbuilt).trans (.enter _ _))
  | switchStmt range discriminant clauses ih =>
    intro scope labels pos draft hu
    rw [Stmt.build_switchStmt]
    simp only [walk, Event.unbroken_statement, Event.unbroken_append] at hu
    apply (Clause.builds_goOn ih hu.2.2).bind
    rintro ⟨built, entries⟩ hbuilt
    -- All clauses are reached from the first one, whether by its test or because it is the default.
    have htests := hbuilt.2.join (Clause.addTests_goOn _ (pos + 1 + discriminant.size) _ built)
      (Clause.addTests_reaches_head hbuilt.1 rfl _ built)
    exact .ok ((htests.trans (.enter _ _)).prepend _)
  | block range body ih =>
    intro scope labels pos draft hu
    rw [Stmt.build_block]
    simp only [walk, Event.unbroken_statement, Event.unbroken_body] at hu
    exact Stmt.builds_goOn ih hu.2
  | labeled range label body ih =>
    intro scope labels pos draft hu
    rw [Stmt.build_labeled]
    simp only [walk, Event.unbroken_statement] at hu
    split
    · exact ih _ _ _ _ hu.2
    · exact ih.enter _ hu.2

namespace RawGraph

open Relation

variable {α : Type} {graph result : RawGraph α}

def AllReached (graph : RawGraph α) : Prop :=
  ∀ index < graph.blocks.length, ReflTransGen graph.chart.Leads graph.start (.block index)

theorem ofBody_allReached (options : FlowOptions)
    (hu : Event.Unbroken (Stmt.walks .shallow pos stmts)) :
    Succeeds (ofBody options pos stmts) AllReached := by
  apply (Stmt.builds_goOn (fun stmt _ => stmt.goesOn) hu).bind
  intro later hlater
  apply Succeeds.ok
  intro index hlt
  cases index with
  | zero => exact hlater.onward
  | succ index => exact hlater.reached _ hlt (Nat.succ_le_succ (Nat.zero_le index))

/-- A block that is left has been reached, through those that are taken out. -/
theorem SplicedTo.allReached (h : graph.SplicedTo result place) (ha : graph.AllReached) :
    result.AllReached := by
  intro index hlt
  obtain ⟨source, hs, rfl⟩ := h.onto index hlt
  obtain ⟨survivor, hskips, hstart⟩ := h.start
  rw [← hstart]
  exact h.contracts.reaches_of_reaches h.places_biUnique (fun _ _ _ hu => hu.1.eq_of_slides)
    (ha source hs.lt_length) hskips.slides ⟨hskips.survives, rfl⟩ ⟨hs, rfl⟩

variable [Ranged α] {frozen : Graph α} {source target : Vertex}

theorem FrozenTo.mem_successors (h : graph.FrozenTo frozen place)
    (hl : graph.chart.Leads source target) :
    target.map place ∈ frozen.successors (source.map place) := by
  obtain ⟨side, hw⟩ := hl
  cases source with
  | exit => cases hw
  | block index =>
    cases hb : graph.blocks[index]? with
    | none => simp [chart, hb] at hw
    | some block =>
      obtain ⟨edge, he, hfrozen⟩ := h.block index block hb
      have ht : target ∈ edge.targets := by
        rw [← Edge.targets_toRaw, ← he, RawEdge.mem_targets]
        exact ⟨side, by simpa [chart, hb] using hw⟩
      rw [Vertex.map, Graph.successors, hfrozen, Option.elim_some, Edge.mem_successors,
        Edge.targets_map]
      exact List.mem_map_of_mem ht

theorem FrozenTo.path_start (h : graph.FrozenTo frozen place) (ha : graph.AllReached) :
    ∀ index < frozen.size, frozen.Path frozen.start (.block index) := by
  intro index hlt
  obtain ⟨source, block, -, hb, rfl, -⟩ := h.exists_place hlt
  rw [h.start]
  exact ReflTransGen.lift (Vertex.map place) (fun _ _ hl => h.mem_successors hl) _ _
    (ha source (List.getElem?_eq_some_iff.1 hb).1)

end RawGraph

/-- A body in which nothing breaks off has a graph, and no block of it is out of reach. -/
theorem Body.graph_of_unbroken {body : Body} (hu : body.Unbroken) (options : FlowOptions) :
    ∃ graph, body.graph options = .ok graph ∧
      ∀ index < graph.size, graph.Path graph.start (.block index) := by
  obtain ⟨raw, hraw, hreached⟩ := RawGraph.ofBody_allReached options hu
  have hsound := RawGraph.sound_of_ofBody hraw
  obtain ⟨spliced, graph, hsplice, hfreeze⟩ := hsound.exists_finished
  have hspliced := (RawGraph.splicedTo_of_splice hsound.inRange hsplice).allReached hreached
  refine ⟨graph, ?_, (RawGraph.frozenTo_of_freeze hfreeze).path_start hspliced⟩
  simp [Body.graph, hraw, hsplice, hfreeze, Except.mapError, bind, Except.bind]

end FlowLint
