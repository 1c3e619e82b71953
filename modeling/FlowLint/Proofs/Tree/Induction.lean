import FlowLint.Tree.Basic

namespace FlowLint

@[elab_as_elim]
theorem Stmt.induction {motive : Stmt → Prop}
    (expression : ∀ range value, motive (.expression range value))
    (declaration : ∀ range kind declarators, motive (.declaration range kind declarators))
    (function : ∀ range name parameters body, motive (.function range name parameters body))
    (ifStmt : ∀ range test body orElse, motive body → (∀ stmt ∈ orElse, motive stmt) →
      motive (.ifStmt range test body orElse))
    (whileStmt : ∀ range test body, motive body → motive (.whileStmt range test body))
    (doStmt : ∀ range body test, motive body → motive (.doStmt range body test))
    (forStmt : ∀ range init test update body, (∀ stmt ∈ init, motive stmt) → motive body →
      motive (.forStmt range init test update body))
    (forEach : ∀ range kind left right body, motive body →
      motive (.forEach range kind left right body))
    (jump : ∀ range kind label, motive (.jump range kind label))
    (returnStmt : ∀ range value, motive (.returnStmt range value))
    (throwStmt : ∀ range value, motive (.throwStmt range value))
    (tryStmt : ∀ range block handler finalizer, (∀ stmt ∈ block.body, motive stmt) →
      (∀ clause ∈ handler, ∀ stmt ∈ clause.body.body, motive stmt) →
      (∀ final ∈ finalizer, ∀ stmt ∈ final.body, motive stmt) →
      motive (.tryStmt range block handler finalizer))
    (switchStmt : ∀ range discriminant clauses,
      (∀ clause ∈ clauses, ∀ stmt ∈ clause.body, motive stmt) →
      motive (.switchStmt range discriminant clauses))
    (block : ∀ range body, (∀ stmt ∈ body, motive stmt) → motive (.block range body))
    (labeled : ∀ range label body, motive body → motive (.labeled range label body))
    (empty : ∀ range, motive (.empty range))
    (debugger : ∀ range, motive (.debugger range))
    (withStmt : ∀ range object body, motive (.withStmt range object body)) :
    ∀ stmt, motive stmt := by
  intro stmt
  have ih : ∀ child, sizeOf child < sizeOf stmt → motive child := fun child _ =>
    Stmt.induction expression declaration function ifStmt whileStmt doStmt forStmt forEach jump
      returnStmt throwStmt tryStmt switchStmt block labeled empty debugger withStmt child
  cases stmt with
  | expression => exact expression ..
  | declaration => exact declaration ..
  | function => exact function ..
  | ifStmt range test body orElse =>
    rw [Stmt.ifStmt.sizeOf_spec] at ih
    refine ifStmt _ _ _ _ (ih _ (by omega)) ?_
    rintro stmt ⟨⟩
    rw [Option.some.sizeOf_spec] at ih
    exact ih _ (by omega)
  | whileStmt =>
    rw [Stmt.whileStmt.sizeOf_spec] at ih
    exact whileStmt _ _ _ (ih _ (by omega))
  | doStmt =>
    rw [Stmt.doStmt.sizeOf_spec] at ih
    exact doStmt _ _ _ (ih _ (by omega))
  | forStmt range init test update body =>
    rw [Stmt.forStmt.sizeOf_spec] at ih
    refine forStmt _ _ _ _ _ ?_ (ih _ (by omega))
    rintro stmt ⟨⟩
    rw [Option.some.sizeOf_spec] at ih
    exact ih _ (by omega)
  | forEach =>
    rw [Stmt.forEach.sizeOf_spec] at ih
    exact forEach _ _ _ _ _ (ih _ (by omega))
  | jump => exact jump ..
  | returnStmt => exact returnStmt ..
  | throwStmt => exact throwStmt ..
  | tryStmt range body handler finalizer =>
    rw [Stmt.tryStmt.sizeOf_spec] at ih
    refine tryStmt _ _ _ _ ?_ ?_ ?_
    · obtain ⟨_, stmts⟩ := body
      intro stmt hs
      have hlt : sizeOf stmt < sizeOf stmts := List.sizeOf_lt_of_mem hs
      rw [Block.mk.sizeOf_spec] at ih
      exact ih _ (by omega)
    · rintro ⟨_, _, _, stmts⟩ ⟨⟩ stmt hs
      have hlt : sizeOf stmt < sizeOf stmts := List.sizeOf_lt_of_mem hs
      rw [Option.some.sizeOf_spec, Handler.mk.sizeOf_spec, Block.mk.sizeOf_spec] at ih
      exact ih _ (by omega)
    · rintro ⟨_, stmts⟩ ⟨⟩ stmt hs
      have hlt : sizeOf stmt < sizeOf stmts := List.sizeOf_lt_of_mem hs
      rw [Option.some.sizeOf_spec, Block.mk.sizeOf_spec] at ih
      exact ih _ (by omega)
  | switchStmt range discriminant clauses =>
    rw [Stmt.switchStmt.sizeOf_spec] at ih
    refine switchStmt _ _ _ ?_
    rintro ⟨_, _, stmts⟩ hc stmt hs
    have hclause := List.sizeOf_lt_of_mem hc
    rw [Clause.mk.sizeOf_spec] at hclause
    have hlt : sizeOf stmt < sizeOf stmts := List.sizeOf_lt_of_mem hs
    exact ih _ (by omega)
  | block range body =>
    rw [Stmt.block.sizeOf_spec] at ih
    refine block _ _ fun stmt hs => ih _ ?_
    have hlt := List.sizeOf_lt_of_mem hs
    omega
  | labeled =>
    rw [Stmt.labeled.sizeOf_spec] at ih
    exact labeled _ _ _ (ih _ (by omega))
  | empty => exact empty ..
  | debugger => exact debugger ..
  | withStmt => exact withStmt ..
termination_by stmt => sizeOf stmt

end FlowLint
