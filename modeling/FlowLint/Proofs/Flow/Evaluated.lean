import FlowLint.Proofs.Flow.Parts
import FlowLint.Proofs.Tree.Induction
import FlowLint.Proofs.Tree.Positions

namespace FlowLint
set_option autoImplicit true

def Expr.optionEvaluated (pos : Nat) (expr : Option Expr) : List Element :=
  (expr.map fun expr => ⟨pos, .expression expr⟩).toList

mutual

/-- The nodes that a statement at `pos` evaluates, in source order. Nested functions are other
bodies. A `for` without a test stands for it, and the `left` of a loop over a subject is evaluated
as a whole. No body with a `with` in it has a graph. -/
def Stmt.evaluated (pos : Nat) (stmt : Stmt) : List Element :=
  match stmt with
  | .expression _ value => [⟨pos + 1, .expression value⟩]
  | .declaration .. | .function .. | .debugger _ | .jump .. | .returnStmt .. | .throwStmt .. =>
    [⟨pos, .statement stmt⟩]
  | .ifStmt _ test body orElse =>
    let bodyPos := pos + 1 + test.size
    ⟨pos + 1, .expression test⟩ :: body.evaluated bodyPos ++
      match orElse with
      | some orElse => orElse.evaluated (bodyPos + body.size)
      | none => []
  | .whileStmt _ test body => ⟨pos + 1, .expression test⟩ :: body.evaluated (pos + 1 + test.size)
  | .doStmt _ body test => body.evaluated (pos + 1) ++ [⟨pos + 1 + body.size, .expression test⟩]
  | .forStmt _ init test update body =>
    let testPos := pos + 1 + Stmt.optionSize init
    let bodyPos := testPos + Expr.optionSize test
    (if test.isNone then [⟨pos, .statement stmt⟩] else []) ++
      (match init with
        | some init => init.evaluated (pos + 1)
        | none => []) ++
      Expr.optionEvaluated testPos test ++ body.evaluated bodyPos ++
      Expr.optionEvaluated (bodyPos + body.size) update
  | .forEach _ _ left right body =>
    let leftPos := pos + 1 + right.size
    ⟨pos + 1, .expression right⟩ :: ⟨leftPos, .statement left⟩ :: body.evaluated (leftPos + left.size)
  | .tryStmt _ ⟨_, body⟩ handler finalizer =>
    let handlerPos := pos + 1 + Stmt.sizes body
    let finalPos := handlerPos + Handler.optionSize handler
    Stmt.evaluatedIn (pos + 1) body ++
      (match handler with
        | some ⟨_, parameter, ⟨_, caught⟩⟩ =>
          Expr.optionEvaluated handlerPos parameter ++
            Stmt.evaluatedIn (handlerPos + Expr.optionSize parameter) caught
        | none => []) ++
      match finalizer with
      | some ⟨_, final⟩ => Stmt.evaluatedIn finalPos final
      | none => []
  | .switchStmt _ discriminant clauses =>
    ⟨pos + 1, .expression discriminant⟩ :: Clause.evaluated (pos + 1 + discriminant.size) clauses
  | .block _ body => Stmt.evaluatedIn (pos + 1) body
  | .labeled _ _ body => body.evaluated (pos + 1)
  | .empty _ | .withStmt .. => []

def Stmt.evaluatedIn (pos : Nat) : List Stmt → List Element
  | [] => []
  | stmt :: stmts => stmt.evaluated pos ++ Stmt.evaluatedIn (pos + stmt.size) stmts

def Clause.evaluated (pos : Nat) : List Clause → List Element
  | [] => []
  | ⟨_, test, body⟩ :: clauses =>
    let bodyPos := pos + Expr.optionSize test
    Expr.optionEvaluated pos test ++ Stmt.evaluatedIn bodyPos body ++
      Clause.evaluated (bodyPos + Stmt.sizes body) clauses

end

def Body.evaluated (body : Body) : List Element :=
  Stmt.evaluatedIn body.position body.stmts

section Equations

variable (pos : Nat) (range : Range)

theorem Stmt.evaluated_ifStmt (test : Expr) (body : Stmt) (orElse : Option Stmt) :
    (ifStmt range test body orElse).evaluated pos =
      ⟨pos + 1, .expression test⟩ :: body.evaluated (pos + 1 + test.size) ++
        orElse.elim [] (·.evaluated (pos + 1 + test.size + body.size)) := by
  cases orElse <;> rfl

theorem Stmt.evaluated_forStmt (init : Option Stmt) (test update : Option Expr) (body : Stmt) :
    (forStmt range init test update body).evaluated pos =
      (if test.isNone then [⟨pos, .statement (forStmt range init test update body)⟩] else []) ++
        init.elim [] (·.evaluated (pos + 1)) ++
        Expr.optionEvaluated (pos + 1 + optionSize init) test ++
        body.evaluated (pos + 1 + optionSize init + Expr.optionSize test) ++
        Expr.optionEvaluated (pos + 1 + optionSize init + Expr.optionSize test + body.size) update := by
  cases init <;> rfl

/-- The head of a `for` can be put last: it is the test, or the statement for a missing one. -/
theorem Stmt.evaluated_forStmt_perm (init : Option Stmt) (test update : Option Expr) (body : Stmt)
    (behind : List Element) :
    let testPos := pos + 1 + optionSize init
    let bodyPos := testPos + Expr.optionSize test
    (init.elim [] (·.evaluated (pos + 1)) ++ (body.evaluated bodyPos ++
      (Expr.optionEvaluated (bodyPos + body.size) update ++
        forHead pos testPos (forStmt range init test update body) test :: behind))).Perm
      ((forStmt range init test update body).evaluated pos ++ behind) := by
  intro testPos bodyPos
  rw [evaluated_forStmt]
  generalize init.elim [] (·.evaluated (pos + 1)) = entry
  generalize Expr.optionEvaluated _ update = again
  cases test with
  | none =>
    simpa [forHead, Expr.optionEvaluated] using
      @List.perm_middle _ _ (entry ++ body.evaluated bodyPos ++ again) behind
  | some test =>
    simpa [forHead, Expr.optionEvaluated] using
      (@List.perm_middle _ _ (body.evaluated bodyPos ++ again) behind).append_left entry

def Rescue.evaluated (rescue : Rescue) : List Element :=
  rescue.parameter.toList ++ Stmt.evaluatedIn rescue.position rescue.stmts

theorem Stmt.evaluated_tryStmt (block : Block) (handler : Option Handler)
    (finalizer : Option Block) :
    (tryStmt range block handler finalizer).evaluated pos =
      evaluatedIn (pos + 1) block.body ++
        (handler.map (·.rescue (pos + 1 + sizes block.body))).elim [] Rescue.evaluated ++
        (finalizer.map (·.rescue (pos + 1 + sizes block.body + Handler.optionSize handler))).elim []
          Rescue.evaluated := by
  obtain ⟨_, body⟩ := block
  rcases handler with _ | ⟨_, _ | _, ⟨_, caught⟩⟩ <;> rcases finalizer with _ | ⟨_, final⟩ <;> rfl

end Equations

theorem Expr.sublist_walk (pos : Nat) (expr : Expr) :
    [⟨pos, .expression expr⟩].Sublist (Event.elements (expr.walk .shallow pos)) := by
  rw [Expr.walk.eq_def, Event.elements_node]
  exact (List.nil_sublist _).cons_cons _

theorem Stmt.sublist_walk (pos : Nat) (stmt : Stmt) :
    [⟨pos, .statement stmt⟩].Sublist (Event.elements (stmt.walk .shallow pos)) := by
  rw [Stmt.walk.eq_def, Event.elements_node]
  exact (List.nil_sublist _).cons_cons _

theorem Expr.optionEvaluated_sublist (pos : Nat) (expr : Option Expr) :
    (optionEvaluated pos expr).Sublist (Event.elements (optionWalk .shallow pos expr)) := by
  cases expr with
  | none => exact .refl _
  | some expr => exact expr.sublist_walk pos

theorem Stmt.evaluatedIn_sublist {stmts : List Stmt}
    (h : ∀ stmt ∈ stmts, ∀ pos,
      (evaluated pos stmt).Sublist (Event.elements (stmt.walk .shallow pos))) (pos : Nat) :
    (evaluatedIn pos stmts).Sublist (Event.elements (walks .shallow pos stmts)) := by
  induction stmts generalizing pos with
  | nil => exact .refl _
  | cons stmt stmts ih =>
    obtain ⟨hstmt, hstmts⟩ := List.forall_mem_cons.1 h
    rw [evaluatedIn, walks, Event.elements_append]
    exact (hstmt pos).append (ih hstmts _)

theorem Block.evaluated_sublist (block : Block)
    (h : ∀ stmt ∈ block.body, ∀ pos,
      (Stmt.evaluated pos stmt).Sublist (Event.elements (stmt.walk .shallow pos))) (pos : Nat) :
    (Stmt.evaluatedIn pos block.body).Sublist (Event.elements (block.walk .shallow pos)) := by
  obtain ⟨_, body⟩ := block
  exact Stmt.evaluatedIn_sublist h pos

theorem Stmt.evaluated_sublist (stmt : Stmt) :
    ∀ pos, (stmt.evaluated pos).Sublist (Event.elements (stmt.walk .shallow pos)) := by
  induction stmt using Stmt.induction with
  | expression range value => exact fun pos => (value.sublist_walk _).cons _
  | declaration | function | jump | returnStmt | throwStmt | debugger =>
    exact fun pos => Stmt.sublist_walk pos _
  | empty | withStmt => exact fun pos => List.nil_sublist _
  | ifStmt range test body orElse ihBody ihElse =>
    intro pos
    simp only [evaluated_ifStmt, walk, Event.elements_node, Event.elements_append]
    refine .cons _ (.append (.append (test.sublist_walk _) (ihBody _)) ?_)
    cases orElse with
    | none => exact .refl _
    | some orElse => exact ihElse orElse rfl _
  | whileStmt range test body ih =>
    intro pos
    simp only [evaluated, walk, Event.elements_node, Event.elements_append]
    exact .cons _ (.append (test.sublist_walk _) (ih _))
  | doStmt range body test ih =>
    intro pos
    simp only [evaluated, walk, Event.elements_node, Event.elements_append]
    exact .cons _ (.append (ih _) (test.sublist_walk _))
  | forStmt range init test update body ihInit ih =>
    intro pos
    have hinit : (init.elim [] (·.evaluated (pos + 1))).Sublist
        (Event.elements (optionWalk .shallow (pos + 1) init)) := by
      cases init with
      | none => exact .refl _
      | some init => exact ihInit init rfl _
    have hself (element : Element) :
        (if test.isNone then [element] else []).Sublist [element] := by
      split <;> simp
    simp only [evaluated_forStmt, walk, Event.elements_node, Event.elements_append,
      List.append_assoc]
    exact (hself _).append (hinit.append ((Expr.optionEvaluated_sublist _ test).append
      ((ih _).append (Expr.optionEvaluated_sublist _ update))))
  | forEach range kind left right body ih =>
    intro pos
    simp only [evaluated, walk, Event.elements_node, Event.elements_append]
    exact .cons _ (.append (.append (right.sublist_walk _) (left.sublist_walk _)) (ih _))
  | tryStmt range block handler finalizer ihBlock ihHandler ihFinalizer =>
    intro pos
    obtain ⟨_, body⟩ := block
    rw [evaluated_tryStmt, walk, Event.elements_node, Event.elements_append, Event.elements_append]
    refine .cons _ (.append (.append (Block.evaluated_sublist _ ihBlock _) ?_) ?_)
    · rcases handler with _ | ⟨_, parameter, caught⟩
      · exact .refl _
      · rw [Handler.optionWalk, Event.elements_handler, Event.elements_append]
        exact (Expr.optionEvaluated_sublist _ parameter).append
          (caught.evaluated_sublist (ihHandler _ rfl) _)
    · rcases finalizer with _ | final
      · exact .refl _
      · exact final.evaluated_sublist (ihFinalizer _ rfl) _
  | switchStmt range discriminant clauses ih =>
    intro pos
    simp only [evaluated, walk, Event.elements_node, Event.elements_append]
    refine .cons _ (.append (discriminant.sublist_walk _) ?_)
    generalize pos + 1 + discriminant.size = clausePos
    induction clauses generalizing clausePos with
    | nil => exact .refl _
    | cons clause clauses ih' =>
      obtain ⟨_, test, body⟩ := clause
      obtain ⟨hclause, hclauses⟩ := List.forall_mem_cons.1 ih
      simp only [Clause.evaluated, Clause.walks, Event.elements_append, Event.elements_clause]
      refine .append ?_ (ih' hclauses _)
      exact .append (Expr.optionEvaluated_sublist _ test) (evaluatedIn_sublist hclause _)
  | block range body ih => exact fun pos => .cons _ (evaluatedIn_sublist ih _)
  | labeled range label body ih => exact fun pos => .cons _ (ih _)

theorem Body.evaluated_sublist (body : Body) : body.evaluated.Sublist body.nodes :=
  Stmt.evaluatedIn_sublist (fun stmt _ => stmt.evaluated_sublist) body.position

theorem Body.evaluated_nodup (body : Body) : (body.evaluated.map (·.position)).Nodup :=
  (body.evaluated_sublist.map _).nodup body.nodes_nodup

end FlowLint
