import FlowLint.Proofs.Flow.Failure
import FlowLint.Proofs.Flow.Reading
import FlowLint.Proofs.Flow.Resolution

namespace FlowLint
set_option autoImplicit true

open Behaviour

variable {scope : Scope} {draft later : Draft} {graph : RawGraph Element} {stmts : List Stmt}

/-- From where a statement begins, the graph reads what the statement does together with what
follows it. -/
def Stmt.Reads (stmt : Stmt) : Prop :=
  ∀ (scope : Scope) (labels : List String) (pos : Nat) (draft later : Draft)
    (graph : RawGraph Element), scope.Fits draft → stmt.build scope labels pos draft = .ok later →
    later.SettledIn graph → later.reading graph.chart =
      (stmt.runs scope.options scope.known labels pos).into
        (scope.landing graph (draft.reading graph.chart))

theorem Stmt.builds_reads (h : ∀ stmt ∈ stmts, Stmt.Reads stmt) (hf : scope.Fits draft)
    (hb : Stmt.builds scope pos stmts draft = .ok later) (hs : later.SettledIn graph) :
    later.reading graph.chart = (Stmt.runsAll scope.options scope.known pos stmts).into
      (scope.landing graph (draft.reading graph.chart)) := by
  induction stmts generalizing pos later with
  | nil =>
    cases hb
    rw [Stmt.runsAll, into_skip]
    rfl
  | cons stmt stmts ih =>
    rw [Stmt.builds_cons] at hb
    obtain ⟨rest, hr, hstmt⟩ := bind_eq_ok.1 hb
    have hd := Stmt.builds_develops (fun stmt _ => stmt.drafts) hf hr
    have hrest := hf.develops hd
    have hd' := stmt.drafts _ _ _ _ _ hrest hstmt
    have hreads := ih (fun stmt hm => h stmt (List.mem_cons_of_mem _ hm)) hr
      (hs.of_keeps hd'.keeps)
    rw [Stmt.runsAll, into_andThen, h stmt (List.mem_cons_self ..) _ _ _ _ _ graph hrest hstmt hs,
      hreads]
    rfl

theorem Stmt.Reads.entry {stmt : Stmt} (h : stmt.Reads) (hf : scope.Fits draft)
    (hb : stmt.build scope labels pos (draft.enter target) = .ok later)
    (hs : later.SealedIn graph) :
    graph.chart.Reads later.here = (stmt.runs scope.options scope.known labels pos).into
      (scope.landing graph (graph.chart.Reads target)) ∧ draft.SealedIn graph := by
  have henter := hf.enter target
  have hd := stmt.drafts _ _ _ _ _ henter hb
  constructor
  · rw [hs.reads_here (hd.ready henter.ready), h _ _ _ _ _ graph henter hb hs.settledIn,
      Draft.reading_enter]
  · exact (hs.settledIn.of_keeps hd.keeps).sealedIn

theorem Stmt.entry_reads (h : ∀ stmt ∈ stmts, Stmt.Reads stmt) (hf : scope.Fits draft)
    (hb : Stmt.builds scope pos stmts (draft.enter target) = .ok later)
    (hs : later.SettledIn graph) :
    later.reading graph.chart = (Stmt.runsAll scope.options scope.known pos stmts).into
      (scope.landing graph (graph.chart.Reads target)) ∧ draft.SealedIn graph := by
  have henter := hf.enter target
  have hd := Stmt.builds_develops (fun stmt _ => stmt.drafts) henter hb
  constructor
  · rw [Stmt.builds_reads h henter hb hs, Draft.reading_enter]
  · exact (hs.of_keeps hd.keeps).sealedIn

theorem Stmt.Reads.buildElse {orElse : Option Stmt} (h : ∀ stmt ∈ orElse, Stmt.Reads stmt)
    (hf : scope.Fits draft) (hb : Stmt.buildElse scope pos orElse draft = .ok (later, onFalse))
    (hs : later.SealedIn graph) :
    graph.chart.Reads onFalse =
      (orElse.elim skip (·.runs scope.options scope.known [] pos)).into
        (scope.landing graph (draft.reading graph.chart)) ∧ draft.SealedIn graph := by
  cases orElse with
  | none =>
    cases hb
    rw [hs.reads_here hf.ready, Option.elim_none, into_skip]
    exact ⟨rfl, hs⟩
  | some orElse =>
    obtain ⟨built, hbuilt, he⟩ := bind_eq_ok.1 hb
    cases he
    obtain ⟨hreads, hdraft⟩ := (h orElse rfl).entry hf hbuilt hs
    rw [hdraft.reads_here hf.ready] at hreads
    exact ⟨hreads, hdraft⟩

/-- A block that ends with a test leads to what the branches do. -/
theorem Draft.reading_branch (draft : Draft) (onTrue onFalse : Vertex) (element : Element)
    (chart : Chart Element) :
    ((draft.enterBlock (.branch (some onTrue) onFalse)).prepend element).reading chart =
      .emit (.element element) (.either (.emit (.side true) (chart.Reads onTrue))
        (.emit (.side false) (chart.Reads onFalse))) := by
  rw [reading_prepend (ready_enterBlock _ (RawEdge.wired_branch _ _)), reading_enterBlock,
    ← chart.readsBy_branch]
  rfl

theorem Draft.SealedIn.reads_branch
    (hs : ((draft.enterBlock (.branch (some onTrue) onFalse)).prepend element).SealedIn graph) :
    graph.chart.Reads
        ((draft.enterBlock (.branch (some onTrue) onFalse)).prepend element).here =
      .emit (.element element) (.either (.emit (.side true) (graph.chart.Reads onTrue))
        (.emit (.side false) (graph.chart.Reads onFalse))) := by
  have hr := (Draft.ready_enterBlock draft (RawEdge.wired_branch onTrue onFalse)).prepend element
  rw [hs.reads_here hr, Draft.reading_branch]

theorem into_tests (element : Element) (left right : Behaviour Element)
    (next : Continuation Element) :
    (((test element true).andThen left).either ((test element false).andThen right)).into next =
      .emit (.element element) (.either (.emit (.side true) (left.into next))
        (.emit (.side false) (right.into next))) := by
  rw [into_either, into_andThen, into_andThen, into_test, into_test, Reading.emit_either]

/-- What the guard of a loop does when it enters the loop and when it leaves it. -/
inductive RawEdge.Guards (after : Vertex) (head : Element) :
    RawEdge → Behaviour Element → Behaviour Element → Prop
  | endless : Guards after head (.jump none) (emit (.element head)) never
  | tested : Guards after head (.branch none after) (test head true) (test head false)

namespace RawEdge

variable {edge : RawEdge} {after : Vertex} {head : Element} {enter exit : Behaviour Element}

theorem Guards.ne_nil (h : edge.Guards after head enter exit) : ¬ enter [] .normal := by
  intro hn
  cases h with
  | endless => cases hn
  | tested => cases (andThen_nil hn).1

theorem Guards.reading (h : edge.Guards after head enter exit) (body : Vertex)
    (chart : Chart Element) {next : Continuation Element} (hn : next.normal = chart.Reads after) :
    (RawBlock.enterLoop body ⟨[head], edge⟩).reading chart =
      (enter.into { next with normal := chart.Reads body }).either (exit.into next) := by
  cases h with
  | endless =>
    rw [into_never, Reading.either_never, into_emit, ← chart.readsBy_jump, ← chart.readsBy_cons]
    rfl
  | tested =>
    rw [into_test, into_test, ← Reading.emit_either, hn, ← chart.readsBy_branch,
      ← chart.readsBy_cons]
    rfl

end RawEdge

theorem Draft.reads_addUpdate (hs : (draft.addUpdate again update).1.SealedIn graph)
    (next : Continuation Element) :
    graph.chart.Reads (draft.addUpdate again update).2 =
      (update.elim skip (emit <| .element ·)).into
        { next with normal := graph.chart.Reads again } := by
  cases update with
  | none => rw [Option.elim_none, into_skip]; rfl
  | some update =>
    have hr : (draft.enter again).Ready := Draft.ready_enter ..
    have hreads : graph.chart.Reads (draft.enter again).here =
        ((draft.enter again).prepend update).reading graph.chart :=
      hs.reads_here (hr.prepend update)
    rw [Draft.reading_prepend hr, Draft.reading_enter] at hreads
    rw [Option.elim_some, into_emit]
    exact hreads

/-- In the body of a loop, what follows is the update and then the guard. -/
theorem into_landing_pushLoop {runs update : Behaviour Element} {labels : List String}
    {guard : Reading Element}
    (ha : graph.chart.Reads after = reading)
    (hu : graph.chart.Reads again = update.into
      { (scope.landing graph reading).through (Enclosing.mk .loop labels).leave with
        normal := guard }) :
    runs.into ((scope.pushLoop labels again after).landing graph (graph.chart.Reads again)) =
      ((runs.through (Enclosing.mk .loop labels).resume).andThen update).into
        { (scope.landing graph reading).through (Enclosing.mk .loop labels).leave with
          normal := guard } := by
  rw [Scope.landing_pushLoop ha, ← into_through _ _ rfl, into_andThen, hu]

theorem Stmt.Reads.buildLoop {body : Stmt} (h : body.Reads) (hf : scope.Fits draft)
    (hg : RawEdge.Guards draft.here head edge enter exit)
    (hb : body.buildLoop scope labels edge head update pos draft = .ok later)
    (hs : later.SealedIn graph) :
    let loop : Enclosing := ⟨.loop, labels⟩
    let runs := body.runs scope.options (labels ++ scope.known) [] pos
    let again := update.elim skip (emit <| .element ·)
    let next := scope.landing graph (draft.reading graph.chart)
    graph.chart.Reads draft.next =
      ((rounds loop enter exit runs again).through loop.leave).into next ∧
    graph.chart.Reads later.here =
      (((runs.through loop.resume).andThen (again.andThen
        (rounds loop enter exit runs again))).through loop.leave).into next := by
  obtain ⟨built, hbuilt, he⟩ := bind_eq_ok.1 hb
  cases he
  obtain ⟨hupdate, hagain, hinner⟩ := hf.loop labels edge head update
  obtain ⟨hbody, hsealed⟩ := h.entry hinner hbuilt hs.of_wire
  have hafter : graph.chart.Reads draft.here = draft.reading graph.chart :=
    hsealed.of_addUpdate.of_addGuard.reads_here hf.ready
  have hwired : graph.blocks[draft.blocks.length]? =
      some (RawBlock.enterLoop built.here ⟨[head], edge⟩) := by
    have hd := hupdate.trans ((Draft.Develops.enter hagain .refl).trans
      (body.drafts _ _ _ _ _ (hinner.enter _) hbuilt))
    have hkept := hd.keeps.block draft.blocks.length (by simp) (Nat.ne_of_gt hf.ready.lt_length)
    refine hs _ _ ?_ (RawBlock.wired_enterLoop ..)
    simp [Draft.wire, hkept, Draft.addGuard]
  apply eq_into_rounds hg.ne_nil
  · exact (RawGraph.reads_block hwired).trans (hg.reading _ _ hafter.symm)
  · exact hbody.trans (into_landing_pushLoop hafter (Draft.reads_addUpdate hsealed _))

theorem Rescue.entry_reads {rescue : Rescue} (h : ∀ stmt ∈ rescue.stmts, Stmt.Reads stmt)
    (hf : scope.Fits draft)
    (hb : Stmt.builds scope rescue.position rescue.stmts (draft.enter target) = .ok built)
    (hs : (rescue.parameter.elim built built.prepend).SealedIn graph) :
    graph.chart.Reads (rescue.parameter.elim built built.prepend).here =
      (rescue.runs scope.options scope.known).into
        (scope.landing graph (graph.chart.Reads target)) ∧ draft.SealedIn graph := by
  obtain ⟨parameter, position, stmts⟩ := rescue
  have henter := hf.enter target
  have hr := Stmt.builds_ready henter hb
  cases parameter with
  | none =>
    obtain ⟨hreads, hdraft⟩ := Stmt.entry_reads h hf hb hs.settledIn
    exact ⟨(hs.reads_here hr).trans hreads, hdraft⟩
  | some parameter =>
    obtain ⟨hreads, hdraft⟩ := Stmt.entry_reads h hf hb hs.settledIn.of_prepend
    refine ⟨(hs.reads_here (hr.prepend parameter)).trans ?_, hdraft⟩
    change (built.prepend parameter).reading graph.chart = _
    rw [Draft.reading_prepend hr, hreads, Rescue.runs, into_andThen, into_emit]

theorem Rescue.into_guarding {rescue : Option Rescue}
    (h : ∀ part ∈ rescue, ∀ stmt ∈ Rescue.stmts part, Stmt.Reads stmt) (hf : scope.Fits draft)
    (ht : exits.2.Within draft.blocks.length)
    (hb : Rescue.build scope exits rescue draft = .ok (later, exits')) (hs : later.SealedIn graph)
    (behaviour : Behaviour Element) (reading : Reading Element) :
    behaviour.into { scope.landing graph reading with
      normal := graph.chart.Reads exits'.1, thrown := graph.chart.Reads exits'.2 } =
    (Rescue.guarding scope.options scope.known rescue behaviour).into
      { scope.landing graph reading with
        normal := graph.chart.Reads exits.1, thrown := graph.chart.Reads exits.2 } ∧
    draft.SealedIn graph := by
  cases rescue with
  | none =>
    cases hb
    exact ⟨rfl, hs⟩
  | some rescue =>
    obtain ⟨built, hbuilt, he⟩ := bind_eq_ok.1 hb
    cases he
    obtain ⟨hreads, hdraft⟩ := Rescue.entry_reads (h rescue rfl) (hf.throwingTo ht) hbuilt hs
    refine ⟨?_, hdraft⟩
    rw [Rescue.guarding, Option.elim_some, into_rescuedBy, hreads, Scope.landing_throwingTo]
    rfl

/-- The entries of clauses lead to their bodies and those behind them. -/
inductive Clause.Enters (graph : RawGraph Element) (options : FlowOptions) (known : List String)
    (next : Continuation Element) : Nat → List Clause → List Vertex → Prop
  | nil {pos : Nat} : Enters graph options known next pos [] []
  | cons {pos : Nat} {clause : Clause} {clauses : List Clause} {entry : Vertex}
      {entries : List Vertex}
      (h : graph.chart.Reads entry =
        (Clause.runsFrom options known pos (clause :: clauses)).into next)
      (hr : Enters graph options known next
        (pos + Expr.optionSize clause.test + Stmt.sizes clause.body) clauses entries) :
      Enters graph options known next pos (clause :: clauses) (entry :: entries)

namespace Clause

variable {options : FlowOptions} {known : List String} {next : Continuation Element}
  {clauses : List Clause} {entries : List Vertex}

theorem Enters.headD (h : Clause.Enters graph options known next pos clauses entries)
    (ha : graph.chart.Reads after = next.normal) :
    graph.chart.Reads (entries.headD after) =
      (Clause.runsFrom options known pos clauses).into next := by
  cases h with
  | nil => rw [runsFrom, into_skip, List.headD_nil, ha]
  | cons h => exact h

theorem Enters.defaultEntry? (h : Clause.Enters graph options known next pos clauses entries)
    (ha : graph.chart.Reads after = next.normal) :
    graph.chart.Reads ((Clause.defaultEntry? clauses entries).getD after) =
      (Clause.runsDefault options known pos clauses).into next := by
  induction h with
  | nil =>
    rw [runsDefault, into_skip]
    exact ha
  | @cons pos clause clauses entry entries h _ ih =>
    obtain ⟨range, condition, body⟩ := clause
    cases condition with
    | none => exact h
    | some condition => exact ih

theorem builds_reads (h : ∀ clause ∈ clauses, ∀ stmt ∈ Clause.body clause, Stmt.Reads stmt)
    (hf : scope.Fits draft) (ha : after.Within draft.blocks.length)
    (hb : Clause.builds scope after pos clauses draft = .ok (later, entries))
    (hs : later.SealedIn graph) :
    Clause.Enters graph scope.options scope.known
      (scope.landing graph (graph.chart.Reads after)) pos clauses entries ∧
    draft.SealedIn graph := by
  induction clauses generalizing pos later entries with
  | nil =>
    cases hb
    exact ⟨.nil, hs⟩
  | cons clause clauses ih =>
    obtain ⟨range, condition, body⟩ := clause
    rw [Clause.builds_cons] at hb
    obtain ⟨⟨rest, behind⟩, hr, hx⟩ := bind_eq_ok.1 hb
    obtain ⟨built, hbuilt, he⟩ := bind_eq_ok.1 hx
    cases he
    have hd := (Clause.builds_develops (fun _ _ stmt _ => stmt.drafts) hf ha hr).1
    have hrest := hf.develops hd
    have henter := hrest.enter (behind.headD after)
    have hready := Stmt.builds_ready henter hbuilt
    obtain ⟨hbody, hsealed⟩ :=
      Stmt.entry_reads (h _ (List.mem_cons_self ..)) hrest hbuilt hs.settledIn
    obtain ⟨henters, hdraft⟩ :=
      ih (fun clause hm => h clause (List.mem_cons_of_mem _ hm)) hr hsealed
    refine ⟨.cons ?_ henters, hdraft⟩
    rw [hs.reads_here hready, hbody, henters.headD rfl, runsFrom, into_andThen]
    rfl

theorem sealedIn_of_addTests {clauses : List (Clause × Vertex)}
    (hs : (Clause.addTests other pos clauses draft).1.SealedIn graph) : draft.SealedIn graph := by
  induction clauses generalizing pos with
  | nil => exact hs
  | cons clause clauses ih =>
    obtain ⟨⟨range, condition, body⟩, entry⟩ := clause
    cases condition with
    | none => exact ih hs
    | some condition => exact ih hs.settledIn.of_prepend.sealedIn

theorem addTests_reads (he : Clause.Enters graph options known next pos clauses entries)
    (ho : graph.chart.Reads other = others.into next)
    (hs : (Clause.addTests other pos (clauses.zip entries) draft).1.SealedIn graph) :
    graph.chart.Reads (Clause.addTests other pos (clauses.zip entries) draft).2 =
      (Clause.selects options known others pos clauses).into next := by
  induction he with
  | nil =>
    rw [selects]
    exact ho
  | @cons pos clause clauses entry entries h _ ih =>
    obtain ⟨range, condition, body⟩ := clause
    cases condition with
    | none => exact ih hs
    | some condition =>
      have hrest : graph.chart.Reads (Clause.addTests other
          (pos + condition.size + Stmt.sizes body) (clauses.zip entries) draft).2 =
          (selects options known others (pos + condition.size + Stmt.sizes body) clauses).into
            next := ih hs.settledIn.of_prepend.sealedIn
      refine hs.reads_branch.trans ?_
      rw [selects, into_tests, ← hrest, h, runsFrom]
      rfl

end Clause

/-- In a statement that is no loop, what follows is what follows the statement. -/
theorem into_landing_push {runs : Behaviour Element} {kind : BreakableKind} {labels : List String}
    (ha : graph.chart.Reads after = reading) :
    runs.into ((scope.push ⟨kind, labels, none, after⟩).landing graph reading) =
      (runs.through (Enclosing.mk kind labels).leave).into (scope.landing graph reading) := by
  rw [Scope.landing_push ha, into_through _ _ rfl]
  rfl

theorem Stmt.guards_forEdge (after : Vertex) (pos testPos : Nat) (stmt : Stmt)
    (condition : Option Expr) :
    (forEdge after condition).Guards after (forHead pos testPos stmt condition)
      (condition.elim (emit (.element ⟨pos, .statement stmt⟩))
        (test ⟨testPos, .expression ·⟩ true))
      (condition.elim never (test ⟨testPos, .expression ·⟩ false)) := by
  cases condition with
  | none => exact .endless
  | some => exact .tested

theorem Stmt.Reads.optionBuild {init : Option Stmt} (h : ∀ stmt ∈ init, Stmt.Reads stmt)
    (hf : scope.Fits draft) (hb : Stmt.optionBuild scope pos init draft = .ok later)
    (hs : later.SettledIn graph) :
    later.reading graph.chart =
      (init.elim skip (·.runs scope.options scope.known [] pos)).into
        (scope.landing graph (draft.reading graph.chart)) := by
  cases init with
  | none =>
    cases hb
    rw [Option.elim_none, into_skip]
    rfl
  | some init => exact h init rfl _ _ _ _ _ graph hf hb hs

theorem Stmt.reads (stmt : Stmt) : stmt.Reads := by
  induction stmt using Stmt.induction with
  | expression | declaration | function | debugger =>
    intro scope labels pos draft later graph hf hb hs
    cases hb
    change (draft.prepend _).reading graph.chart = _
    rw [Stmt.runs, into_emit, Draft.reading_prepend hf.ready]
    rfl
  | empty =>
    intro scope labels pos draft later graph hf hb hs
    cases hb
    rw [Stmt.runs, into_skip]
    rfl
  | withStmt =>
    intro scope labels pos draft later graph hf hb hs
    cases hb
  | returnStmt | throwStmt =>
    intro scope labels pos draft later graph hf hb hs
    cases hb
    change ((draft.enter _).prepend _).reading graph.chart = _
    rw [Stmt.runs, into_andThen, into_emit, into_ends,
      Draft.reading_prepend (hf.enter _).ready, Draft.reading_enter]
    rfl
  | jump range kind label =>
    intro scope labels pos draft later graph hf hb hs
    rw [Stmt.build_jump] at hb
    obtain ⟨target, ht, he⟩ := bind_eq_ok.1 hb
    cases he
    rw [Stmt.runs, into_andThen, into_emit, into_ends,
      Draft.reading_prepend (hf.enter _).ready, Draft.reading_enter]
    simp only [Continuation.behind, Scope.landing, Scope.target?_of_jumpTarget ht, Option.elim_some]
  | ifStmt range condition body orElse ihBody ihElse =>
    intro scope labels pos draft later graph hf hb hs
    rw [Stmt.build_ifStmt] at hb
    obtain ⟨⟨built, onFalse⟩, helse, hx⟩ := bind_eq_ok.1 hb
    obtain ⟨entered, hbody, he⟩ := bind_eq_ok.1 hx
    cases he
    have hd := (Stmt.Drafts.buildElse (fun stmt _ => stmt.drafts) hf helse).1
    obtain ⟨htrue, hsealed⟩ := ihBody.entry (hf.develops hd) hbody hs.of_prepend.sealedIn
    obtain ⟨hfalse, hdraft⟩ := Stmt.Reads.buildElse ihElse hf helse hsealed
    rw [Stmt.runs_ifStmt, into_tests, Draft.reading_branch, htrue, hfalse,
      hdraft.reads_here hf.ready]
  | whileStmt range condition body ih =>
    intro scope labels pos draft later graph hf hb hs
    rw [Stmt.build_whileStmt] at hb
    obtain ⟨built, hloop, he⟩ := bind_eq_ok.1 hb
    cases he
    rw [Stmt.runs, Draft.reading_enter, (ih.buildLoop hf .tested hloop hs.sealedIn).1]
    rfl
  | doStmt range body condition ih =>
    intro scope labels pos draft later graph hf hb hs
    rw [Stmt.build_doStmt] at hb
    obtain ⟨built, hloop, he⟩ := bind_eq_ok.1 hb
    cases he
    rw [Stmt.runs, Draft.reading_enter, (ih.buildLoop hf .tested hloop hs.sealedIn).2,
      Option.elim_none, skip_andThen]
  | forStmt range init condition update body ihInit ih =>
    intro scope labels pos draft later graph hf hb hs
    rw [Stmt.build_forStmt] at hb
    obtain ⟨built, hloop, hinit⟩ := bind_eq_ok.1 hb
    have hd := (body.drafts.buildLoop hf (Stmt.waits_forEdge ..) hloop).1
    have henter := (hf.develops hd).enter draft.next
    have hd' := Stmt.Drafts.optionBuild (fun stmt _ => stmt.drafts) henter hinit
    have hreads := ih.buildLoop hf (Stmt.guards_forEdge ..) hloop (hs.of_keeps hd'.keeps).sealedIn
    rw [Option.elim_map] at hreads
    rw [Stmt.runs_forStmt, into_andThen, Stmt.Reads.optionBuild ihInit henter hinit hs,
      Draft.reading_enter, hreads.1]
    rfl
  | forEach range kind left right body ih =>
    intro scope labels pos draft later graph hf hb hs
    rw [Stmt.build_forEach] at hb
    obtain ⟨built, hloop, he⟩ := bind_eq_ok.1 hb
    cases he
    have hreads := (ih.buildLoop hf .tested hloop hs.of_prepend.sealedIn).1
    rw [Stmt.runs, into_andThen, into_emit, Draft.reading_prepend (Draft.ready_enter ..),
      Draft.reading_enter, hreads]
    rfl
  | tryStmt range block handler finalizer ihBlock ihHandler ihFinalizer =>
    intro scope labels pos draft later graph hf hb hs
    obtain ⟨finished, exits, caught, exits', built, hfinal, hcatch, hbuilt, rfl⟩ :=
      Stmt.exists_of_build_tryStmt hb
    obtain ⟨hd, hn, ht⟩ := Rescue.build_develops (fun _ _ stmt _ => stmt.drafts) hf hf.here
      hf.within.throwTarget hfinal
    have hfinished := hf.develops hd
    obtain ⟨hd', -, ht'⟩ := Rescue.build_develops (fun _ _ stmt _ => stmt.drafts) hfinished hn ht
      hcatch
    have hthrowing := (hfinished.develops hd').throwingTo ht'
    have henter := hthrowing.enter exits'.1
    have hready := Stmt.builds_ready henter hbuilt
    obtain ⟨hbody, hsealed⟩ := Stmt.entry_reads ihBlock hthrowing hbuilt hs.sealedIn.settledIn
    obtain ⟨hcaught, hsealed'⟩ := Rescue.into_guarding (Handler.forall_rescue ihHandler _)
      hfinished ht hcatch hsealed
      (Stmt.runsAll scope.options scope.known (pos + 1) block.body) (draft.reading graph.chart)
    obtain ⟨hended, hdraft⟩ := Rescue.into_guarding (Block.forall_rescue ihFinalizer _) hf
      hf.within.throwTarget hfinal hsealed' _ (draft.reading graph.chart)
    rw [Draft.reading_enter, hs.sealedIn.reads_here hready, hbody, Stmt.runs_tryStmt]
    refine hcaught.trans (hended.trans ?_)
    rw [hdraft.reads_here hf.ready]
    rfl
  | switchStmt range discriminant clauses ih =>
    intro scope labels pos draft later graph hf hb hs
    rw [Stmt.build_switchStmt] at hb
    obtain ⟨⟨built, entries⟩, hbuilt, he⟩ := bind_eq_ok.1 hb
    cases he
    have hinner := hf.pushSwitch labels hf.here
    have htests := hs.of_prepend.sealedIn
    obtain ⟨henters, hdraft⟩ := Clause.builds_reads ih hinner hf.here hbuilt
      (Clause.sealedIn_of_addTests htests)
    have hafter := hdraft.reads_here hf.ready
    have hfirst := Clause.addTests_reads henters (henters.defaultEntry? rfl) htests
    rw [Draft.reading_prepend (Draft.ready_enter ..),
      Draft.reading_enter, hfirst, hafter, Stmt.runs, into_andThen, into_emit]
    exact congrArg _ (into_landing_push hafter)
  | block range body ih =>
    intro scope labels pos draft later graph hf hb hs
    rw [Stmt.build_block] at hb
    rw [Stmt.runs]
    exact Stmt.builds_reads ih hf hb hs
  | labeled range label body ih =>
    intro scope labels pos draft later graph hf hb hs
    rw [Stmt.build_labeled] at hb
    rw [Stmt.runs]
    split at hb
    · next ht =>
      simp only [ht, if_true]
      exact ih _ _ _ _ _ graph hf hb hs
    · next ht =>
      have henter := (hf.pushLabeled (labels ++ [label.name]) hf.here).enter draft.here
      have hdraft := (hs.of_keeps (body.drafts _ _ _ _ _ henter hb).keeps).sealedIn
      have hafter := hdraft.reads_here hf.ready
      have hreads := ih _ _ _ _ _ graph henter hb hs
      rw [Draft.reading_enter, hafter] at hreads
      simp only [ht, Bool.false_eq_true, if_false]
      exact hreads.trans (into_landing_push hafter)

theorem RawGraph.reads_exit_iff {outcome : Outcome} (h : outcome.Shows .finished) :
    graph.chart.Reads .exit word ending ↔ word = [] ∧ outcome.Shows ending := by
  constructor
  · intro hr
    cases hr with
    | finish => exact ⟨rfl, h⟩
    | stop hp => exact ⟨List.prefix_nil.1 hp, .cut⟩
    | pass hm => cases hm
  · rintro ⟨rfl, -⟩
    cases ending with
    | finished => exact .finish
    | interrupted => exact graph.chart.reads_nil .exit

theorem Scope.behind_outermost (options : FlowOptions) (outcome : Outcome) :
    ((Scope.outermost options).landing graph (graph.chart.Reads .exit)).behind outcome word ending ↔
      word = [] ∧ outcome.Shows ending := by
  cases outcome with
  | normal => exact RawGraph.reads_exit_iff .normal
  | returned => exact RawGraph.reads_exit_iff .returned
  | thrown => exact RawGraph.reads_exit_iff .thrown
  | jump | interrupted =>
    constructor
    · rintro ⟨hw, rfl⟩
      exact ⟨hw, .cut⟩
    · rintro ⟨hw, hs⟩
      cases hs
      exact ⟨hw, rfl⟩

theorem RawGraph.ofBody_reads_iff (h : RawGraph.ofBody options pos body = .ok raw) :
    raw.chart.Reads raw.start word ending ↔
      ∃ outcome, Stmt.runsAll options [] pos body word outcome ∧ outcome.Shows ending := by
  obtain ⟨draft, hb, he⟩ := bind_eq_ok.1 h
  cases he
  have hf := Scope.outermost_fits options
  have hs : draft.SealedIn draft.toRawGraph := fun _ _ hb _ => hb
  have hinitial : Draft.initial.reading draft.toRawGraph.chart =
      draft.toRawGraph.chart.Reads .exit := Chart.readsBy_jump _ .exit
  have hreads := (hs.reads_here (Stmt.builds_ready hf hb)).trans
    (Stmt.builds_reads (fun stmt _ => stmt.reads) hf hb hs.settledIn)
  rw [hinitial] at hreads
  change draft.toRawGraph.chart.Reads draft.here word ending ↔ _
  rw [hreads]
  simp only [into, Scope.behind_outermost]
  constructor
  · rintro ⟨_, outcome, _, rfl, hrun, rfl, hshows⟩
    exact ⟨outcome, (List.append_nil _).symm ▸ hrun, hshows⟩
  · rintro ⟨outcome, hrun, hshows⟩
    exact ⟨word, outcome, [], (List.append_nil _).symm, hrun, rfl, hshows⟩

/-- The graph of a body reads exactly what the runs of the body do: from its start to the exit what
its complete runs do, and on the way what any of its runs do. Every jump in these runs has found the
statement it refers to. -/
theorem Body.graph_reads_runs {options : FlowOptions} {body : Body} {graph : Graph Element}
    (h : body.graph options = .ok graph) :
    (∀ word ending, graph.chart.Reads graph.start word ending ↔
      ∃ outcome, body.runs options word outcome ∧ outcome.Shows ending) ∧
    ∀ word kind label, ¬ body.runs options word (.jump kind label) := by
  have hoffences := (h ▸ body.graph_failsWithLast options).eq_nil
  constructor
  · intro word ending
    obtain ⟨raw, spliced, place, hraw, hspliced, hfreeze⟩ := exists_spliced h
    have hfrozen := RawGraph.frozenTo_of_freeze hfreeze
    rw [← hfrozen.reads_start_iff hspliced.inRange, ← hspliced.reads_start_iff]
    exact RawGraph.ofBody_reads_iff hraw
  · exact body.not_runs_jump hoffences

namespace Body

/-- A loop around a `try` around a `switch`, with jumps from each of them:
`l: for (; a; b) try { switch (c) { case d: continue l; default: throw e; } } catch { break; }` -/
def nestedJumps : Body :=
  ⟨.script, ⟨0, 93⟩, 0, [.labeled ⟨0, 93⟩ ⟨"l", ⟨0, 1⟩⟩
    (.forStmt ⟨3, 93⟩ none (some (.name ⟨10, 11⟩ "a")) (some (.name ⟨13, 14⟩ "b"))
      (.tryStmt ⟨16, 93⟩
        ⟨⟨20, 76⟩, [.switchStmt ⟨22, 74⟩ (.name ⟨30, 31⟩ "c")
          [⟨⟨35, 54⟩, some (.name ⟨40, 41⟩ "d"),
            [.jump ⟨43, 54⟩ .continue (some ⟨"l", ⟨52, 53⟩⟩)]⟩,
          ⟨⟨55, 72⟩, none, [.throwStmt ⟨64, 72⟩ (.name ⟨70, 71⟩ "e")]⟩]]⟩
        (some ⟨⟨77, 93⟩, none, ⟨⟨83, 93⟩, [.jump ⟨85, 91⟩ .break none]⟩⟩) none))]⟩

/-- Its graph: the test and the update of the loop, the subject, the test and the two clauses of the
`switch`, and the `catch`. -/
def nestedJumpsGraph : Graph Element :=
  ⟨[⟨[⟨2, .expression (.name ⟨10, 11⟩ "a")⟩], .branch (.block 2) .exit⟩,
    ⟨[⟨11, .expression (.name ⟨13, 14⟩ "b")⟩], .always (.block 0)⟩,
    ⟨[⟨5, .expression (.name ⟨30, 31⟩ "c")⟩], .always (.block 3)⟩,
    ⟨[⟨6, .expression (.name ⟨40, 41⟩ "d")⟩], .branch (.block 4) (.block 5)⟩,
    ⟨[⟨7, .statement (.jump ⟨43, 54⟩ .continue (some ⟨"l", ⟨52, 53⟩⟩))⟩], .always (.block 1)⟩,
    ⟨[⟨8, .statement (.throwStmt ⟨64, 72⟩ (.name ⟨70, 71⟩ "e"))⟩], .always (.block 6)⟩,
    ⟨[⟨10, .statement (.jump ⟨85, 91⟩ .break none)⟩], .always .exit⟩], .block 0⟩

theorem graph_reads_runs_nestedJumps :
    nestedJumps.graph {} = .ok nestedJumpsGraph ∧
      ∀ word ending, nestedJumpsGraph.chart.Reads (.block 0) word ending ↔
        ∃ outcome, nestedJumps.runs {} word outcome ∧ outcome.Shows ending := by
  have h : nestedJumps.graph {} = .ok nestedJumpsGraph := by cbv
  exact ⟨h, (graph_reads_runs h).1⟩

end Body

end FlowLint
