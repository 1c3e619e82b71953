import FlowLint.Lint.Complexity
import FlowLint.Proofs.Flow.Guard
import FlowLint.Proofs.Flow.Shape
import Mathlib.Data.List.Flatten

namespace FlowLint
set_option autoImplicit true

/-- The two sides of a branch lead to different vertices. -/
def Edge.Splits : Edge → Prop
  | always _ => False
  | branch onTrue onFalse => onTrue ≠ onFalse

namespace Edge

instance : DecidablePred Splits
  | always _ => inferInstanceAs (Decidable False)
  | branch onTrue onFalse => inferInstanceAs (Decidable (onTrue ≠ onFalse))

theorem Splits.isBranch {edge : Edge} (h : edge.Splits) : edge.isBranch = true := by
  cases edge with
  | always target => exact h.elim
  | branch onTrue onFalse => rfl

theorem length_successors (edge : Edge) :
    edge.successors.length = 1 + if edge.Splits then 1 else 0 := by
  cases edge with
  | always target => rfl
  | branch onTrue onFalse =>
    by_cases he : onTrue = onFalse
    · simp [successors, Splits, he]
    · rw [successors, if_neg he, if_pos (show Splits (branch onTrue onFalse) from he)]
      split <;> rfl

theorem splits_iff (edge : Edge) : edge.Splits ↔ edge.successors.length = 2 := by
  rw [length_successors]
  split <;> simp [*]

end Edge

namespace Graph

variable {α : Type}

/-- Each block has one way out, and those that split have one more. -/
theorem edgeCount_eq (graph : Graph α) :
    graph.edgeCount = graph.size + graph.blocks.countP fun block => block.edge.Splits := by
  rw [edgeCount, size]
  induction graph.blocks with
  | nil => rfl
  | cons block blocks ih =>
    rw [List.flatMap_cons, List.length_append, ih, Edge.length_successors, List.length_cons,
      List.countP_cons]
    simp only [decide_eq_true_eq]
    omega

theorem complexity_eq (graph : Graph α) :
    graph.complexity = 1 + graph.blocks.countP fun block => block.edge.Splits := by
  rw [complexity, edgeCount_eq]
  omega

def BranchesOn (graph : Graph Element) (index : Nat) (condition : Element) : Prop :=
  ∃ block, graph.blocks[index]? = some block ∧ block.condition? = some condition

/-- Some block branches on the condition at a position, and its sides lead to different vertices. -/
def SplitsAt (graph : Graph Element) (position : Nat) : Prop :=
  ∃ block ∈ graph.blocks, block.condition?.map (·.position) = some position ∧ block.edge.Splits

instance (graph : Graph Element) : DecidablePred graph.SplitsAt :=
  fun _ => List.decidableBEx _ _

end Graph

namespace BasicBlock

variable {α : Type} {block : BasicBlock α} {condition : α}

theorem isBranch_of_condition? (h : block.condition? = some condition) :
    block.edge.isBranch = true := by
  rw [condition?] at h
  split at h
  · assumption
  · cases h

theorem getLast?_of_condition? (h : block.condition? = some condition) :
    block.elements.getLast? = some condition := by
  rwa [condition?, if_pos (isBranch_of_condition? h)] at h

theorem mem_of_condition? (h : block.condition? = some condition) : condition ∈ block.elements :=
  List.mem_of_getLast? (getLast?_of_condition? h)

theorem condition?_sublist (block : BasicBlock α) :
    block.condition?.toList.Sublist block.elements := by
  cases hc : block.condition? with
  | none => exact List.nil_sublist _
  | some condition => exact List.singleton_sublist.2 (mem_of_condition? hc)

end BasicBlock

/-- What decides in a statement itself: the test of an `if` or of a loop, the left side of a loop
over a subject, and the tests of the clauses of a `switch`. -/
def Stmt.choices (pos : Nat) : Stmt → List Element
  | .ifStmt _ test _ _ | .whileStmt _ test _ => [⟨pos + 1, .expression test⟩]
  | .doStmt _ body test => [⟨pos + 1 + body.size, .expression test⟩]
  | .forStmt _ init test _ _ => Expr.optionEvaluated (pos + 1 + Stmt.optionSize init) test
  | .forEach _ _ left right _ => [⟨pos + 1 + right.size, .statement left⟩]
  | .switchStmt _ discriminant clauses =>
    Clause.testsEvaluated (pos + 1 + discriminant.size) clauses
  | _ => []

def Element.choices : Element → List Element
  | ⟨position, .statement stmt⟩ => stmt.choices position
  | ⟨_, .expression _⟩ => []

def Event.choices (events : List Event) : List Element :=
  (elements events).flatMap Element.choices

def Body.choices (body : Body) : List Element :=
  body.nodes.flatMap Element.choices

namespace Event

@[simp] theorem choices_nil : choices [] = [] := rfl

@[simp] theorem choices_append (events events' : List Event) :
    choices (events ++ events') = choices events ++ choices events' := by
  simp [choices]

@[simp] theorem choices_expression (pos : Nat) (expr : Expr) (events : List Event) :
    choices (node ⟨pos, .expression expr⟩ :: events) = choices events :=
  rfl

@[simp] theorem choices_statement (pos : Nat) (stmt : Stmt) (events : List Event) :
    choices (node ⟨pos, .statement stmt⟩ :: events) = stmt.choices pos ++ choices events :=
  rfl

@[simp] theorem choices_body (stmts : List Stmt) (events : List Event) :
    choices (body stmts :: events) = choices events :=
  rfl

@[simp] theorem choices_handler (range : Range) (events : List Event) :
    choices (handler range :: events) = choices events :=
  rfl

@[simp] theorem choices_clause (range : Range) (isDefault : Bool) (events : List Event) :
    choices (clause range isDefault :: events) = choices events :=
  rfl

theorem MeetOnlyExpressions.choices_eq_nil (h : MeetOnlyExpressions events) :
    choices events = [] := by
  rw [choices, List.flatMap_eq_nil_iff]
  rintro ⟨position, node⟩ hm
  obtain ⟨expr, rfl⟩ := h _ hm
  rfl

end Event

@[simp] theorem Expr.choices_walk (pos : Nat) (expr : Expr) :
    Event.choices (expr.walk .shallow pos) = [] :=
  (expr.walk_meetOnlyExpressions pos).choices_eq_nil

@[simp] theorem Expr.choices_optionWalk (pos : Nat) (expr : Option Expr) :
    Event.choices (Expr.optionWalk .shallow pos expr) = [] :=
  (Expr.optionWalk_meetOnlyExpressions pos expr).choices_eq_nil

theorem Stmt.choices_walk_of_isHead {stmt : Stmt} (h : stmt.isHead = true) (pos : Nat) :
    Event.choices (stmt.walk .shallow pos) = [] := by
  cases stmt with
  | expression range value => simp [walk, choices]
  | declaration range kind declarators =>
    simp [walk, choices, (Declarator.walks_meetOnlyExpressions _ declarators).choices_eq_nil]
  | _ => cases h

def Role.conditions (roles : List (Element × Role)) : List Element :=
  (roles.filter (·.2.decides)).map (·.1)

namespace Role

@[simp] theorem conditions_nil : conditions [] = [] := rfl

@[simp] theorem conditions_append (roles roles' : List (Element × Role)) :
    conditions (roles ++ roles') = conditions roles ++ conditions roles' := by
  simp [conditions]

@[simp] theorem conditions_cons (element : Element) (role : Role) (roles : List (Element × Role)) :
    conditions ((element, role) :: roles) =
      if role.decides then element :: conditions roles else conditions roles := by
  rw [conditions, List.filter_cons]
  split <;> rfl

@[simp] theorem conditions_guard (pos : Nat) (expr : Option Expr) :
    conditions (Expr.optionRoles .guard pos expr) = Expr.optionEvaluated pos expr := by
  cases expr <;> rfl

@[simp] theorem conditions_plain (pos : Nat) (expr : Option Expr) :
    conditions (Expr.optionRoles .plain pos expr) = [] := by
  cases expr <;> rfl

end Role

/-- The nodes of a statement that decide are the choices in it. -/
def Stmt.Chooses (stmt : Stmt) : Prop :=
  ∀ (options : FlowOptions) (around : List Enclosing) (labels : List String) (pos : Nat),
    stmt.offences options around labels = [] →
    (Role.conditions (stmt.roles pos)).Perm (Event.choices (stmt.walk .shallow pos))

theorem Stmt.Chooses.inList {stmts : List Stmt} (h : ∀ stmt ∈ stmts, stmt.Chooses)
    (ho : Stmt.offencesIn options around stmts = []) :
    (Role.conditions (Stmt.rolesIn pos stmts)).Perm
      (Event.choices (Stmt.walks .shallow pos stmts)) := by
  induction stmts generalizing pos with
  | nil => exact .nil
  | cons stmt stmts ih =>
    obtain ⟨hstmt, hstmts⟩ := List.forall_mem_cons.1 h
    obtain ⟨hfirst, hrest⟩ := List.append_eq_nil_iff.1 ho
    rw [Stmt.rolesIn, Stmt.walks, Role.conditions_append, Event.choices_append]
    exact (hstmt _ _ _ _ hfirst).append (ih hstmts hrest)

theorem Clause.choose {clauses : List Clause}
    (h : ∀ clause ∈ clauses, ∀ stmt ∈ Clause.body clause, Stmt.Chooses stmt)
    (ho : Clause.offences options around clauses = []) :
    (Role.conditions (Clause.roles pos clauses)).Perm
      (Clause.testsEvaluated pos clauses ++ Event.choices (Clause.walks .shallow pos clauses)) := by
  induction clauses generalizing pos with
  | nil => exact .nil
  | cons clause clauses ih =>
    obtain ⟨range, test, body⟩ := clause
    obtain ⟨hclause, hclauses⟩ := List.forall_mem_cons.1 h
    obtain ⟨hbody, hrest⟩ := List.append_eq_nil_iff.1 ho
    simp only [Clause.roles, Clause.testsEvaluated, Clause.walks, Role.conditions_append,
      Role.conditions_guard, Event.choices_append, Event.choices_clause, Expr.choices_optionWalk,
      Event.choices_body, List.nil_append, List.append_assoc]
    refine .append_left _ (((Stmt.Chooses.inList hclause hbody).append (ih hclauses hrest)).trans ?_)
    simp only [← List.append_assoc]
    exact List.perm_append_comm.append_right _

theorem Upholds.chooses {stmt : Stmt} (h : Upholds Piece.HasPlainHead stmt) : stmt.Chooses := by
  induction h with
  | expression | function | debugger | empty | jump | returnStmt | throwStmt =>
    intro options around labels pos ho
    simp [Stmt.roles, Stmt.walk, Stmt.choices, Role.decides, Extent.intoFunction]
  | @declaration range kind declarators =>
    intro options around labels pos ho
    have hhead : (Stmt.declaration range kind declarators).isHead = true := rfl
    simp [Stmt.roles, Role.decides, Stmt.choices_walk_of_isHead hhead]
  | withStmt =>
    intro options around labels pos ho
    cases ho
  | @ifStmt range test body orElse _ _ _ ihBody ihElse =>
    intro options around labels pos ho
    rw [Stmt.offences_ifStmt] at ho
    obtain ⟨hbody, helse⟩ := List.append_eq_nil_iff.1 ho
    rw [Stmt.roles_ifStmt]
    simp only [List.cons_append, Role.conditions_cons, Role.conditions_append, Stmt.walk,
      Event.choices_statement, Event.choices_append, Expr.choices_walk, Stmt.choices]
    refine .cons _ ((ihBody _ _ _ _ hbody).append ?_)
    cases orElse with
    | none => exact .nil
    | some orElse => exact ihElse orElse rfl _ _ _ _ helse
  | whileStmt _ _ ih =>
    intro options around labels pos ho
    simpa [Stmt.roles, Stmt.walk, Stmt.choices, Role.decides] using ih _ _ _ _ ho
  | doStmt _ _ ih =>
    intro options around labels pos ho
    have hbody := ih _ _ _ (pos + 1) ho
    simpa [Stmt.roles, Stmt.walk, Stmt.choices, Role.decides] using
      (hbody.append_right _).trans (List.perm_append_singleton ..)
  | @forStmt range init test update body _ _ _ ihInit ih =>
    intro options around labels pos ho
    rw [Stmt.offences_forStmt] at ho
    obtain ⟨hinit, hbody⟩ := List.append_eq_nil_iff.1 ho
    have hentry : (Role.conditions (init.elim [] (·.roles (pos + 1)))).Perm
        (Event.choices (Stmt.optionWalk .shallow (pos + 1) init)) := by
      cases init with
      | none => exact .nil
      | some init => exact ihInit init rfl _ _ _ _ hinit
    have hself (element : Element) :
        Role.conditions (if test.isNone then [(element, .endless)] else []) = [] := by
      split <;> rfl
    simp only [Stmt.roles_forStmt, Stmt.walk, Stmt.choices, Role.conditions_append,
      Role.conditions_guard, Role.conditions_plain, Event.choices_statement, Event.choices_append,
      Expr.choices_optionWalk, hself, List.nil_append, List.append_nil, ← List.append_assoc]
    exact (List.perm_append_comm.trans (hentry.append_left _)).append (ih _ _ _ _ hbody)
  | forEach hhead _ ih =>
    intro options around labels pos ho
    simpa [Stmt.roles, Stmt.walk, Stmt.choices, Role.decides, Stmt.choices_walk_of_isHead hhead]
      using ih _ _ _ _ ho
  | @tryStmt range tried handler finalizer _ _ _ _ _ _ _ ihBlock ihHandler ihFinalizer =>
    intro options around labels pos ho
    rw [Stmt.offences_tryStmt] at ho
    obtain ⟨ho, hfinal⟩ := List.append_eq_nil_iff.1 ho
    obtain ⟨hblock, hcaught⟩ := List.append_eq_nil_iff.1 ho
    obtain ⟨_, body⟩ := tried
    simp only [Stmt.roles_tryStmt, Stmt.walk, Stmt.choices, Block.walk, Block.size,
      Role.conditions_append, Event.choices_statement, Event.choices_append, Event.choices_body,
      List.nil_append]
    refine ((Stmt.Chooses.inList ihBlock hblock).append ?_).append ?_
    · rcases handler with _ | ⟨_, _ | parameter, ⟨_, caught⟩⟩
      · exact .nil
      all_goals
        simpa [Handler.rescue, Rescue.roles, Handler.optionWalk, Block.walk, Role.decides] using
          Stmt.Chooses.inList (ihHandler _ rfl) hcaught
    · rcases finalizer with _ | ⟨_, final⟩
      · exact .nil
      · exact Stmt.Chooses.inList (ihFinalizer _ rfl) hfinal
  | switchStmt _ _ _ ih =>
    intro options around labels pos ho
    simpa [Stmt.roles, Stmt.walk, Stmt.choices, Role.decides] using Clause.choose ih ho
  | block _ _ ih =>
    intro options around labels pos ho
    simpa [Stmt.roles, Stmt.walk, Stmt.choices] using Stmt.Chooses.inList ih ho
  | @labeled range label body _ _ ih =>
    intro options around labels pos ho
    rw [Stmt.offences] at ho
    simp only [Stmt.roles, Stmt.walk, Stmt.choices, Event.choices_statement, List.nil_append]
    split at ho
    · exact ih _ _ _ _ ho
    · exact ih _ _ _ _ ho

namespace Body

variable {body : Body} {graph : Graph Element} {block : BasicBlock Element} {condition : Element}

theorem elements_nodup (h : body.graph options = .ok graph) :
    (graph.elements.map (·.position)).Nodup :=
  ((elements_perm h).map (·.position)).nodup_iff.2 body.evaluated_nodup

theorem conditions_nodup (body : Body) : (body.conditions.map (·.position)).Nodup := by
  have hs : body.conditions.Sublist body.evaluated := by
    rw [conditions, ← map_roles]
    exact List.filter_sublist.map _
  exact (hs.map _).nodup body.evaluated_nodup

/-- A block that branches does so on a condition of the body. -/
theorem exists_condition (h : body.graph options = .ok graph) (hm : block ∈ graph.blocks)
    (hb : block.edge.isBranch = true) :
    ∃ condition ∈ body.conditions, block.condition? = some condition := by
  obtain ⟨last, -, hdecides, hcondition, -⟩ := branch_iff_last_decides h hm
  exact ⟨last, hdecides.1 hb, hcondition hb⟩

theorem condition?_of_mem (h : body.graph options = .ok graph) (hm : block ∈ graph.blocks)
    (hc : condition ∈ body.conditions) (he : condition ∈ block.elements) :
    block.condition? = some condition := by
  obtain ⟨last, hlast, hdecides, hcondition, hfront⟩ := branch_iff_last_decides h hm
  rw [← List.dropLast_append_getLast? last hlast] at he
  rcases List.mem_append.1 he with he | he
  · exact (hfront condition he hc).elim
  · obtain rfl := List.mem_singleton.1 he
    exact hcondition (hdecides.2 hc)

theorem conditions_perm (h : body.graph options = .ok graph) :
    (graph.blocks.filterMap (·.condition?)).Perm body.conditions := by
  have hsublist : (graph.blocks.filterMap (·.condition?)).Sublist graph.elements := by
    rw [List.filterMap_eq_flatMap_toList]
    exact List.Sublist.flatMap_right _ fun block _ => block.condition?_sublist
  have hblocks := List.Nodup.of_map _ ((hsublist.map (·.position)).nodup (elements_nodup h))
  have hconditions := List.Nodup.of_map _ body.conditions_nodup
  rw [List.perm_ext_iff_of_nodup hblocks hconditions]
  intro condition
  rw [List.mem_filterMap]
  constructor
  · rintro ⟨block, hm, hc⟩
    obtain ⟨other, ho, hother⟩ := exists_condition h hm (BasicBlock.isBranch_of_condition? hc)
    rw [hc, Option.some.injEq] at hother
    rwa [hother]
  · intro hc
    obtain ⟨role, hr, -⟩ := mem_conditions.1 hc
    obtain ⟨block, hm, he⟩ :=
      List.mem_flatMap.1 ((elements_perm h).mem_iff.2 (mem_evaluated_of_role hr))
    exact ⟨block, hm, condition?_of_mem h hm hc he⟩

/-- The block of a condition that splits is the block in front of its two sides. -/
theorem splitsAt_iff (h : body.graph options = .ok graph) (hm : block ∈ graph.blocks)
    (hc : block.condition? = some condition) :
    graph.SplitsAt condition.position ↔ block.edge.Splits := by
  constructor
  · rintro ⟨other, ho, hother, hsplits⟩
    obtain ⟨found, hfound, hp⟩ := Option.map_eq_some_iff.1 hother
    obtain ⟨i, hi⟩ := List.mem_iff_getElem?.1 hm
    obtain ⟨j, hj⟩ := List.mem_iff_getElem?.1 ho
    obtain rfl := Graph.eq_of_position_eq (elements_nodup h) hi hj (BasicBlock.mem_of_condition? hc)
      (BasicBlock.mem_of_condition? hfound) hp.symm
    rw [hi, Option.some.injEq] at hj
    rwa [hj]
  · exact fun hsplits => ⟨block, hm, by rw [hc, Option.map_some], hsplits⟩

theorem countP_splits (h : body.graph options = .ok graph) :
    graph.blocks.countP (fun block => block.edge.Splits) =
      body.conditions.countP fun condition => graph.SplitsAt condition.position := by
  rw [← (conditions_perm h).countP_eq, List.countP_filterMap]
  apply List.countP_congr
  intro block hm
  rw [decide_eq_true_eq]
  cases hc : block.condition? with
  | none =>
    simp only [Option.map_none, Option.getD_none, Bool.false_eq_true, iff_false]
    intro hsplits
    obtain ⟨condition, -, hcondition⟩ := exists_condition h hm hsplits.isBranch
    rw [hc] at hcondition
    cases hcondition
  | some condition => rw [Option.map_some, Option.getD_some, decide_eq_true_eq, splitsAt_iff h hm hc]

/-- The conditions of a body with a graph are the choices of its statements, if its loops over
subjects have plain heads. -/
theorem conditions_perm_choices (hp : ∀ stmt ∈ body.stmts, (Piece.statement stmt).PlainHeads)
    (h : body.graph options = .ok graph) : body.conditions.Perm body.choices := by
  have hfails := body.graph_failsWithLast options
  rw [h] at hfails
  exact Stmt.Chooses.inList (fun stmt hm => (stmt.upholds (hp stmt hm)).chooses) hfails.eq_nil

theorem existsUnique_branchesOn (h : body.graph options = .ok graph)
    (hc : condition ∈ body.conditions) : ∃! index, graph.BranchesOn index condition := by
  obtain ⟨block, hm, hcondition⟩ := List.mem_filterMap.1 ((conditions_perm h).mem_iff.2 hc)
  obtain ⟨index, hindex⟩ := List.mem_iff_getElem?.1 hm
  refine ⟨index, ⟨block, hindex, hcondition⟩, ?_⟩
  rintro other ⟨block', hother, hcondition'⟩
  exact Graph.eq_of_position_eq (elements_nodup h) hother hindex
    (BasicBlock.mem_of_condition? hcondition') (BasicBlock.mem_of_condition? hcondition) rfl

/-- What the complexity of a graph counts. It is one more than the number of blocks with two
successors, and the difference it is computed from never falls short. Each condition of the body
(the test of an `if` or of a loop, the left side of a loop over a subject, a case test) has one
block that branches on it, and no other block branches. So the complexity is one more than the
number of conditions whose sides lead to different vertices, and nothing else in a body adds to it.
If the loops over subjects have plain heads, as in every script that is read, the conditions are
those of the statements among the nodes of the body. -/
theorem graph_complexity (h : body.graph options = .ok graph) :
    graph.complexity = 1 + graph.blocks.countP (fun block => block.edge.successors.length = 2) ∧
    graph.complexity + (graph.size + 1) = graph.edgeCount + 2 ∧
    (body.conditions.map (·.position)).Nodup ∧
    (∀ condition ∈ body.conditions, ∃! index, graph.BranchesOn index condition) ∧
    (∀ block ∈ graph.blocks, block.edge.isBranch = true →
      ∃ condition ∈ body.conditions, block.condition? = some condition) ∧
    graph.complexity =
      1 + body.conditions.countP (fun condition => graph.SplitsAt condition.position) ∧
    1 ≤ graph.complexity ∧ graph.complexity ≤ 1 + body.conditions.length ∧
    (graph.complexity = 1 + body.conditions.length ↔
      ∀ condition ∈ body.conditions, graph.SplitsAt condition.position) ∧
    ((∀ stmt ∈ body.stmts, (Piece.statement stmt).PlainHeads) →
      body.conditions.Perm body.choices) := by
  have hcount : graph.complexity =
      1 + body.conditions.countP fun condition => graph.SplitsAt condition.position := by
    rw [graph.complexity_eq, countP_splits h]
  have hle := body.conditions.countP_le_length
    (p := fun condition => graph.SplitsAt condition.position)
  refine ⟨?blocks, ?difference, body.conditions_nodup, fun _ => existsUnique_branchesOn h,
    fun _ => exists_condition h, hcount, by omega, by omega, ?most,
    fun hp => conditions_perm_choices hp h⟩
  case blocks =>
    simp only [graph.complexity_eq, Edge.splits_iff]
  case difference =>
    rw [graph.complexity_eq, graph.edgeCount_eq]
    omega
  case most =>
    rw [hcount, Nat.add_left_cancel_iff, List.countP_eq_length]
    simp only [decide_eq_true_eq]

/-- A test whose sides coincide, and a loop that no run gets to:
`if (a) ; return; while (b) c;` -/
def deadLoop : Body :=
  ⟨.expression none, ⟨0, 29⟩, 0, [
    .ifStmt ⟨0, 8⟩ (.name ⟨4, 5⟩ "a") (.empty ⟨7, 8⟩) none,
    .returnStmt ⟨9, 16⟩ none,
    .whileStmt ⟨17, 29⟩ (.name ⟨24, 25⟩ "b") (.expression ⟨27, 29⟩ (.name ⟨27, 28⟩ "c"))]⟩

theorem graph_complexity_deadLoop :
    ∃ graph, deadLoop.graph {} = .ok graph ∧ graph.complexity = 2 ∧
      graph.complexity + (graph.size + 1) = graph.edgeCount + 2 ∧
      deadLoop.conditions.map (·.position) = [1, 5] ∧
      (∀ condition ∈ deadLoop.conditions, ∃! index, graph.BranchesOn index condition) ∧
      ¬ ∀ condition ∈ deadLoop.conditions, graph.SplitsAt condition.position := by
  obtain ⟨graph, hgraph⟩ : ∃ graph, deadLoop.graph {} = .ok graph := exists_graph (by decide)
  have hcomplexity : (deadLoop.graph {}).toOption.map (·.complexity) = some 2 := by cbv
  rw [hgraph] at hcomplexity
  obtain ⟨-, hdifference, -, hblocks, -, -, -, -, hmost, -⟩ := graph_complexity hgraph
  have htwo : graph.complexity = 2 := Option.some.inj hcomplexity
  refine ⟨graph, hgraph, htwo, hdifference, by decide, hblocks, fun hsplits => ?_⟩
  have hthree := hmost.2 hsplits
  rw [htwo] at hthree
  exact absurd hthree (by decide)

end Body

end FlowLint
