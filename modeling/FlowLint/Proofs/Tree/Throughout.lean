import FlowLint.Proofs.Tree.Induction
import FlowLint.Proofs.Tree.Piece

namespace FlowLint
set_option autoImplicit true

namespace Piece

variable {property : Piece → Prop} {piece : Piece}

def Throughout (property : Piece → Prop) (piece : Piece) : Prop :=
  ∀ part ∈ piece.pieces, property part

namespace Throughout

theorem self (h : piece.Throughout property) : property piece :=
  h piece piece.self_mem_pieces

theorem child {part : Piece} (h : piece.Throughout property) (hm : part ∈ piece.children) :
    part.Throughout property :=
  fun other ho => h other (pieces_subset_of_child hm ho)

theorem block {block : Block} (h : (Piece.block block).Throughout property) :
    ∀ stmt ∈ block.body, (statement stmt).Throughout property := by
  obtain ⟨_, body⟩ := block
  exact fun stmt hm => h.child (List.mem_map_of_mem hm)

theorem handler {handler : Handler} (h : (Piece.handler handler).Throughout property) :
    (Piece.block handler.body).Throughout property := by
  obtain ⟨_, parameter, body⟩ := handler
  exact h.child (List.mem_append_right _ (List.mem_singleton_self _))

theorem clause {clause : Clause} (h : (Piece.clause clause).Throughout property) :
    ∀ stmt ∈ clause.body, (statement stmt).Throughout property := by
  obtain ⟨_, test, body⟩ := clause
  exact fun stmt hm => h.child (List.mem_append_right _ (List.mem_map_of_mem hm))

end Throughout

end Piece

open Piece (statement)

/-- A property holds of a statement and of the pieces around the statements in it. -/
inductive Upholds (property : Piece → Prop) : Stmt → Prop
  | expression (h : property (statement (.expression range value))) :
      Upholds property (.expression range value)
  | declaration : Upholds property (.declaration range kind declarators)
  | function : Upholds property (.function range name parameters body)
  | ifStmt (h : property (statement (.ifStmt range test body orElse)))
      (hb : Upholds property body) (he : ∀ stmt ∈ orElse, Upholds property stmt) :
      Upholds property (.ifStmt range test body orElse)
  | whileStmt (h : property (statement (.whileStmt range test body)))
      (hb : Upholds property body) : Upholds property (.whileStmt range test body)
  | doStmt (h : property (statement (.doStmt range body test))) (hb : Upholds property body) :
      Upholds property (.doStmt range body test)
  | forStmt (h : property (statement (.forStmt range init test update body)))
      (hi : ∀ stmt ∈ init, Upholds property stmt) (hb : Upholds property body) :
      Upholds property (.forStmt range init test update body)
  | forEach (h : property (statement (.forEach range kind left right body)))
      (hb : Upholds property body) : Upholds property (.forEach range kind left right body)
  | jump : Upholds property (.jump range kind label)
  | returnStmt : Upholds property (.returnStmt range value)
  | throwStmt : Upholds property (.throwStmt range thrown)
  | tryStmt (h : property (statement (.tryStmt range tried handler finalizer)))
      (ht : property (.block tried)) (hb : ∀ stmt ∈ Block.body tried, Upholds property stmt)
      (hh : ∀ clause ∈ handler, property (.handler clause) ∧ property (.block clause.body))
      (hc : ∀ clause ∈ handler, ∀ stmt ∈ Block.body (Handler.body clause), Upholds property stmt)
      (hf : ∀ final ∈ finalizer, property (.block final))
      (hs : ∀ final ∈ finalizer, ∀ stmt ∈ Block.body final, Upholds property stmt) :
      Upholds property (.tryStmt range tried handler finalizer)
  | switchStmt (h : property (statement (.switchStmt range discriminant clauses)))
      (hc : ∀ clause ∈ clauses, property (.clause clause))
      (hb : ∀ clause ∈ clauses, ∀ stmt ∈ Clause.body clause, Upholds property stmt) :
      Upholds property (.switchStmt range discriminant clauses)
  | block (h : property (statement (.block range stmts)))
      (hb : ∀ stmt ∈ stmts, Upholds property stmt) : Upholds property (.block range stmts)
  | labeled (h : property (statement (.labeled range label body))) (hb : Upholds property body) :
      Upholds property (.labeled range label body)
  | empty : Upholds property (.empty range)
  | debugger : Upholds property (.debugger range)
  | withStmt : Upholds property (.withStmt range object body)

theorem Stmt.upholds {property : Piece → Prop} (stmt : Stmt) :
    (statement stmt).Throughout property → Upholds property stmt := by
  induction stmt using Stmt.induction with
  | expression => exact fun h => .expression h.self
  | declaration => exact fun _ => .declaration
  | function => exact fun _ => .function
  | jump => exact fun _ => .jump
  | returnStmt => exact fun _ => .returnStmt
  | throwStmt => exact fun _ => .throwStmt
  | empty => exact fun _ => .empty
  | debugger => exact fun _ => .debugger
  | withStmt => exact fun _ => .withStmt
  | ifStmt range test body orElse ihBody ihElse =>
    intro h
    apply Upholds.ifStmt h.self (ihBody (h.child (by simp [Piece.children, children])))
    intro stmt hm
    exact ihElse stmt hm (h.child (by simp [Piece.children, children, Option.mem_def.1 hm]))
  | whileStmt range test body ih =>
    exact fun h => .whileStmt h.self (ih (h.child (by simp [Piece.children, children])))
  | doStmt range body test ih =>
    exact fun h => .doStmt h.self (ih (h.child (by simp [Piece.children, children])))
  | forStmt range init test update body ihInit ih =>
    intro h
    apply Upholds.forStmt h.self _ (ih (h.child (by simp [Piece.children, children])))
    intro stmt hm
    exact ihInit stmt hm (h.child (by simp [Piece.children, children, Option.mem_def.1 hm]))
  | forEach range kind left right body ih =>
    exact fun h => .forEach h.self (ih (h.child (by simp [Piece.children, children])))
  | tryStmt range tried handler finalizer ihBlock ihHandler ihFinalizer =>
    intro h
    have hblock : (Piece.block tried).Throughout property :=
      h.child (by simp [Piece.children, children])
    have hhandler : ∀ clause ∈ handler, (Piece.handler clause).Throughout property :=
      fun clause hm => h.child (by simp [Piece.children, children, Option.mem_def.1 hm])
    have hfinalizer : ∀ final ∈ finalizer, (Piece.block final).Throughout property :=
      fun final hm => h.child (by simp [Piece.children, children, Option.mem_def.1 hm])
    apply Upholds.tryStmt h.self hblock.self
    · exact fun stmt hm => ihBlock stmt hm (hblock.block stmt hm)
    · exact fun clause hm => ⟨(hhandler clause hm).self, (hhandler clause hm).handler.self⟩
    · exact fun clause hm stmt hs => ihHandler clause hm stmt hs
        ((hhandler clause hm).handler.block stmt hs)
    · exact fun final hm => (hfinalizer final hm).self
    · exact fun final hm stmt hs => ihFinalizer final hm stmt hs
        ((hfinalizer final hm).block stmt hs)
  | switchStmt range discriminant clauses ih =>
    intro h
    have hclauses : ∀ clause ∈ clauses, (Piece.clause clause).Throughout property :=
      fun clause hm => h.child (List.mem_cons_of_mem _ (List.mem_map_of_mem hm))
    apply Upholds.switchStmt h.self
    · exact fun clause hm => (hclauses clause hm).self
    · exact fun clause hm stmt hs => ih clause hm stmt hs ((hclauses clause hm).clause stmt hs)
  | block range body ih =>
    intro h
    exact .block h.self fun stmt hm => ih stmt hm (h.child (List.mem_map_of_mem hm))
  | labeled range label body ih =>
    exact fun h => .labeled h.self (ih (h.child (by simp [Piece.children, children])))

end FlowLint
