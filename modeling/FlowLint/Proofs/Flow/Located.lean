import FlowLint.Proofs.Flow.Offence
import FlowLint.Proofs.Tree.Piece

namespace FlowLint
set_option autoImplicit true

/-- The place of what is wrong; none if it is a defect of a graph under construction. -/
def FlowError.range? : FlowError → Option Range
  | unsupported _ range | unresolvedJump _ range | unresolvedLabel _ _ range
  | continueToNonLoop _ range => some range
  | graph _ => none

/-- An error is about one of some pieces. -/
def FlowError.About (pieces : List Piece) (error : FlowError) : Prop :=
  ∃ piece ∈ pieces, error.range? = some piece.range

theorem FlowError.About.mono (h : FlowError.About pieces error) (hs : pieces ⊆ pieces') :
    error.About pieces' := by
  obtain ⟨piece, hm, hr⟩ := h
  exact ⟨piece, hs hm, hr⟩

theorem JumpKind.range?_of_offence? {kind : JumpKind}
    (h : kind.offence? options around range label = some error) : error.range? = some range := by
  unfold offence? at h
  grind [FlowError.range?]

namespace Stmt

/-- What is wrong with a statement is about pieces of it. -/
def Located (stmt : Stmt) : Prop :=
  ∀ options around labels, ∀ error ∈ stmt.offences options around labels,
    error.About (Piece.statement stmt).pieces

variable {stmt inner : Stmt} {stmts : List Stmt} {clauses : List Clause}

theorem Located.within (h : inner.Located) (he : error ∈ inner.offences options around labels)
    (hc : Piece.statement inner ∈ stmt.children := by simp [children]) :
    error.About (Piece.statement stmt).pieces :=
  (h _ _ _ _ he).mono (Piece.pieces_subset_of_child hc)

theorem about_of_mem_offencesIn (h : ∀ stmt ∈ stmts, stmt.Located)
    (hc : ∀ stmt ∈ stmts, (Piece.statement stmt).pieces ⊆ pieces)
    (he : error ∈ offencesIn options around stmts) : error.About pieces := by
  induction stmts with
  | nil => cases he
  | cons stmt stmts ih =>
    rw [List.forall_mem_cons] at h hc
    rcases List.mem_append.1 he with he | he
    · exact (h.1 _ _ _ _ he).mono hc.1
    · exact ih h.2 hc.2 he

theorem about_of_mem_clauses (h : ∀ clause ∈ clauses, ∀ stmt ∈ clause.body, stmt.Located)
    (hc : ∀ clause ∈ clauses, (Piece.clause clause).pieces ⊆ pieces)
    (he : error ∈ Clause.offences options around clauses) : error.About pieces := by
  induction clauses with
  | nil => cases he
  | cons clause clauses ih =>
    rw [List.forall_mem_cons] at h hc
    obtain ⟨range, test, body⟩ := clause
    rcases List.mem_append.1 he with he | he
    · have hbody : ∀ stmt ∈ body,
          Piece.statement stmt ∈ (Piece.clause ⟨range, test, body⟩).children :=
        fun stmt hm => List.mem_append_right _ (List.mem_map_of_mem hm)
      exact about_of_mem_offencesIn h.1
        (fun stmt hm => List.Subset.trans (Piece.pieces_subset_of_child (hbody stmt hm)) hc.1) he
    · exact ih h.2 hc.2 he

theorem about_of_mem_block {block : Block} (h : ∀ stmt ∈ block.body, stmt.Located)
    (he : error ∈ offencesIn options around block.body) :
    error.About (Piece.block block).pieces := by
  obtain ⟨range, body⟩ := block
  exact about_of_mem_offencesIn h
    (fun stmt hm => Piece.pieces_subset_of_child (List.mem_map_of_mem hm)) he

theorem located (stmt : Stmt) : stmt.Located := by
  induction stmt using Stmt.induction with
  | expression | declaration | function | returnStmt | throwStmt | empty | debugger =>
    intro options around labels error he
    rw [offences] at he
    cases he
  | withStmt range object body =>
    intro options around labels error he
    rw [offences] at he
    obtain rfl := List.mem_singleton.1 he
    exact ⟨_, Piece.self_mem_pieces _, rfl⟩
  | jump range kind label =>
    intro options around labels error he
    rw [offences] at he
    have hrange := JumpKind.range?_of_offence? (Option.mem_toList.1 he)
    exact ⟨_, Piece.self_mem_pieces _, hrange⟩
  | ifStmt range test body orElse ihBody ihElse =>
    intro options around labels error he
    rw [offences_ifStmt] at he
    rcases List.mem_append.1 he with he | he
    · exact ihBody.within he
    · cases orElse with
      | none => cases he
      | some orElse => exact (ihElse orElse rfl).within he
  | whileStmt _ _ _ ih | doStmt _ _ _ ih | forEach _ _ _ _ _ ih =>
    intro options around labels error he
    rw [offences] at he
    exact ih.within he
  | forStmt range init test update body ihInit ih =>
    intro options around labels error he
    rw [offences_forStmt] at he
    rcases List.mem_append.1 he with he | he
    · cases init with
      | none => cases he
      | some init => exact (ihInit init rfl).within he
    · exact ih.within he
  | tryStmt range block handler finalizer ihBlock ihHandler ihFinalizer =>
    intro options around labels error he
    rw [offences_tryStmt] at he
    have hparts (part : Piece) (hc : part ∈ (tryStmt range block handler finalizer).children) :
        part.pieces ⊆ (Piece.statement (tryStmt range block handler finalizer)).pieces :=
      Piece.pieces_subset_of_child hc
    rcases List.mem_append.1 he with he | he
    · rcases List.mem_append.1 he with he | he
      · exact (about_of_mem_block ihBlock he).mono (hparts _ (List.mem_cons_self ..))
      · rcases handler with _ | ⟨place, parameter, caught⟩
        · cases he
        · have hcaught : Piece.block caught ∈ (Piece.handler ⟨place, parameter, caught⟩).children :=
            List.mem_append_right _ (List.mem_singleton_self _)
          have habout := (about_of_mem_block (ihHandler _ rfl) he).mono
            (Piece.pieces_subset_of_child hcaught)
          exact habout.mono (hparts _ (by simp [children]))
    · cases finalizer with
      | none => cases he
      | some final =>
        exact (about_of_mem_block (ihFinalizer _ rfl) he).mono (hparts _ (by simp [children]))
  | switchStmt range discriminant clauses ih =>
    intro options around labels error he
    rw [offences] at he
    have hclauses : ∀ clause ∈ clauses,
        Piece.clause clause ∈ (switchStmt range discriminant clauses).children :=
      fun clause hm => List.mem_cons_of_mem _ (List.mem_map_of_mem hm)
    exact about_of_mem_clauses ih
      (fun clause hm => Piece.pieces_subset_of_child (hclauses clause hm)) he
  | block range body ih =>
    intro options around labels error he
    rw [offences] at he
    exact about_of_mem_offencesIn ih
      (fun stmt hm => Piece.pieces_subset_of_child (List.mem_map_of_mem hm)) he
  | labeled range label body ih =>
    intro options around labels error he
    rw [offences] at he
    split at he
    · exact ih.within he
    · exact ih.within he

end Stmt

/-- What is wrong with a body is about pieces of its statements. -/
theorem Body.about_of_mem_offences {body : Body} (h : error ∈ body.offences options) :
    error.About (body.stmts.flatMap fun stmt => (Piece.statement stmt).pieces) :=
  Stmt.about_of_mem_offencesIn (fun stmt _ => stmt.located)
    (fun stmt hm _ hp => List.mem_flatMap.2 ⟨stmt, hm, hp⟩) h

end FlowLint
