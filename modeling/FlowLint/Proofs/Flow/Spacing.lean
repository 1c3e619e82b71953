import FlowLint.Proofs.Grammar.Nesting
import FlowLint.Proofs.Tree.Functions
import FlowLint.Proofs.Tree.Throughout

namespace FlowLint
set_option autoImplicit true

namespace Range

def Inside (inner outer : Range) : Prop :=
  outer.start ≤ inner.start ∧ inner.stop ≤ outer.stop

def Apart (left right : Range) : Prop :=
  left.stop ≤ right.start ∨ right.stop ≤ left.start

variable {inner middle outer left right : Range}

theorem Inside.refl (range : Range) : range.Inside range :=
  ⟨Nat.le_refl _, Nat.le_refl _⟩

theorem Inside.trans (h : inner.Inside middle) (h' : middle.Inside outer) : inner.Inside outer :=
  ⟨Nat.le_trans h'.1 h.1, Nat.le_trans h.2 h'.2⟩

theorem Apart.symm (h : left.Apart right) : right.Apart left :=
  Or.symm h

end Range

namespace Piece

/-- Pieces one behind the other, none of them empty. -/
structure Lined (row : List Piece) : Prop where
  nonempty : ∀ piece ∈ row, piece.range.start < piece.range.stop
  apart : row.Pairwise fun left right => left.range.stop ≤ right.range.start

/-- A piece and its children are not empty, the children stand in the piece one behind the other,
and the head of a loop is in order. -/
structure Ordered (piece : Piece) : Prop where
  nonempty : piece.range.start < piece.range.stop
  children : ∀ child ∈ piece.children, child.range.start < child.range.stop
  row : Row piece.range piece.children
  head : piece.HasPlainHead
  opens : piece.OpensFirst

variable {piece : Piece} {row row' : List Piece}

theorem lined_append : Lined (row ++ row') ↔ Lined row ∧ Lined row' ∧
    ∀ left ∈ row, ∀ right ∈ row', left.range.stop ≤ right.range.start := by
  constructor
  · rintro ⟨hne, hapart⟩
    obtain ⟨hne, hne'⟩ := List.forall_mem_append.1 hne
    obtain ⟨hapart, hapart', hcross⟩ := List.pairwise_append.1 hapart
    exact ⟨⟨hne, hapart⟩, ⟨hne', hapart'⟩, hcross⟩
  · rintro ⟨⟨hne, hapart⟩, ⟨hne', hapart'⟩, hcross⟩
    exact ⟨List.forall_mem_append.2 ⟨hne, hne'⟩,
      List.pairwise_append.2 ⟨hapart, hapart', hcross⟩⟩

theorem Ordered.lined (h : piece.Ordered) : Lined piece.children :=
  ⟨h.children, h.row.apart⟩

end Piece

namespace Element

/-- What a `for` that stands for its missing test holds: all that its head and its body evaluate. -/
def held : Element → List Element
  | ⟨pos, .statement (.forStmt _ init none update body)⟩ =>
    let bodyPos := pos + 1 + Stmt.optionSize init
    init.elim [] (·.evaluated (pos + 1)) ++ body.evaluated bodyPos ++
      Expr.optionEvaluated (bodyPos + body.size) update
  | _ => []

/-- Two elements keep apart, or one of them holds the other. -/
def Spaced (left right : Element) : Prop :=
  left.range.Apart right.range ∨ right ∈ left.held ∨ left ∈ right.held

theorem Spaced.symm {left right : Element} (h : left.Spaced right) : right.Spaced left :=
  h.imp Range.Apart.symm Or.symm

/-- Elements in the pieces of a row, at a distance from one another; what one of them holds is among
them and in it. -/
structure Spread (row : List Piece) (elements : List Element) : Prop where
  nonempty : ∀ element ∈ elements, element.range.start < element.range.stop
  inside : ∀ element ∈ elements, ∃ piece ∈ row, element.range.Inside piece.range
  held : ∀ element ∈ elements, ∀ inner ∈ element.held, inner ∈ elements ∧
    element.range.start < inner.range.start ∧ inner.range.stop ≤ element.range.stop
  spaced : elements.Pairwise Spaced

/-- Elements are spread over a row if it is lined up. -/
def Fills (row : List Piece) (elements : List Element) : Prop :=
  Piece.Lined row → Spread row elements

variable {piece : Piece} {row row' : List Piece} {element : Element}
  {elements elements' : List Element}

namespace Spread

theorem mono (h : Spread row elements)
    (hs : ∀ piece ∈ row, ∃ outer ∈ row', piece.range.Inside outer.range) :
    Spread row' elements where
  nonempty := h.nonempty
  inside element hm := by
    obtain ⟨piece, hp, hin⟩ := h.inside element hm
    obtain ⟨outer, ho, hout⟩ := hs piece hp
    exact ⟨outer, ho, hin.trans hout⟩
  held := h.held
  spaced := h.spaced

theorem append (h : Spread row elements) (h' : Spread row' elements')
    (hc : ∀ left ∈ row, ∀ right ∈ row', left.range.stop ≤ right.range.start) :
    Spread (row ++ row') (elements ++ elements') := by
  have hleft : Spread (row ++ row') elements :=
    h.mono fun piece hm => ⟨piece, List.mem_append_left _ hm, .refl _⟩
  have hright : Spread (row ++ row') elements' :=
    h'.mono fun piece hm => ⟨piece, List.mem_append_right _ hm, .refl _⟩
  refine ⟨List.forall_mem_append.2 ⟨h.nonempty, h'.nonempty⟩,
    List.forall_mem_append.2 ⟨hleft.inside, hright.inside⟩,
    List.forall_mem_append.2 ⟨fun element hm inner hi => ?_, fun element hm inner hi => ?_⟩,
    List.pairwise_append.2 ⟨h.spaced, h'.spaced, fun left hl right hr => ?_⟩⟩
  · obtain ⟨hmem, hrest⟩ := h.held element hm inner hi
    exact ⟨List.mem_append_left _ hmem, hrest⟩
  · obtain ⟨hmem, hrest⟩ := h'.held element hm inner hi
    exact ⟨List.mem_append_right _ hmem, hrest⟩
  · obtain ⟨piece, hp, -, hstop⟩ := h.inside left hl
    obtain ⟨piece', hp', hstart, -⟩ := h'.inside right hr
    exact .inl (.inl (Nat.le_trans hstop (Nat.le_trans (hc piece hp piece' hp') hstart)))

end Spread

namespace Fills

theorem nil : Fills row [] :=
  fun _ => ⟨nofun, nofun, nofun, .nil⟩

theorem append (h : Fills row elements) (h' : Fills row' elements') :
    Fills (row ++ row') (elements ++ elements') := by
  intro hl
  obtain ⟨hrow, hrow', hcross⟩ := Piece.lined_append.1 hl
  exact (h hrow).append (h' hrow') hcross

theorem perm (h : Fills row elements) (hp : elements.Perm elements') : Fills row elements' := by
  intro hl
  obtain ⟨hne, hinside, hheld, hspaced⟩ := h hl
  refine ⟨fun element hm => hne element (hp.mem_iff.2 hm),
    fun element hm => hinside element (hp.mem_iff.2 hm), fun element hm inner hi => ?_,
    hp.pairwise hspaced Spaced.symm⟩
  obtain ⟨hmem, hrest⟩ := hheld element (hp.mem_iff.2 hm) inner hi
  exact ⟨hp.mem_iff.1 hmem, hrest⟩

theorem whole (hr : element.range = piece.range) (hh : element.held = []) :
    Fills [piece] [element] := by
  intro hl
  refine ⟨List.forall_mem_singleton.2 ?_, List.forall_mem_singleton.2 ?_,
    List.forall_mem_singleton.2 ?_, List.pairwise_singleton ..⟩
  · rw [hr]
    exact hl.nonempty piece (List.mem_singleton_self _)
  · exact ⟨piece, List.mem_singleton_self _, hr ▸ .refl _⟩
  · rw [hh]
    exact nofun

/-- What fills the children of a piece fills the piece. -/
theorem wrap (ho : piece.Ordered) (h : Fills piece.children elements) : Fills [piece] elements :=
  fun _ => (h ho.lined).mono fun child hm =>
    ⟨piece, List.mem_singleton_self _, ho.row.inside child hm⟩

theorem hold (ho : piece.Ordered)
    (hf : ∀ child ∈ piece.children, piece.range.start < child.range.start)
    (hr : element.range = piece.range) (hh : element.held = elements)
    (h : Fills piece.children elements) : Fills [piece] (element :: elements) := by
  intro hl
  have hinner := wrap ho h hl
  have hstart : ∀ inner ∈ elements, element.range.start < inner.range.start := by
    intro inner hm
    obtain ⟨child, hc, hs, -⟩ := (h ho.lined).inside inner hm
    rw [hr]
    exact Nat.lt_of_lt_of_le (hf child hc) hs
  have hstop : ∀ inner ∈ elements, inner.range.stop ≤ element.range.stop := by
    intro inner hm
    obtain ⟨outer, hout, -, hs⟩ := hinner.inside inner hm
    rwa [List.mem_singleton.1 hout, ← hr] at hs
  refine ⟨List.forall_mem_cons.2 ⟨?_, hinner.nonempty⟩,
    List.forall_mem_cons.2 ⟨?_, hinner.inside⟩,
    List.forall_mem_cons.2 ⟨fun inner hi => ?_, fun other hm inner hi => ?_⟩,
    List.pairwise_cons.2 ⟨fun inner hm => ?_, hinner.spaced⟩⟩
  · rw [hr]
    exact ho.nonempty
  · exact ⟨piece, List.mem_singleton_self _, hr ▸ .refl _⟩
  · rw [hh] at hi
    exact ⟨List.mem_cons_of_mem _ hi, hstart inner hi, hstop inner hi⟩
  · obtain ⟨hmem, hrest⟩ := hinner.held other hm inner hi
    exact ⟨List.mem_cons_of_mem _ hmem, hrest⟩
  · rw [← hh] at hm
    exact .inr (.inl hm)

end Fills

end Element

open Element (Fills)
open Piece (statement)

theorem Expr.fills (pos : Nat) (expr : Expr) :
    Fills [.expression expr] [⟨pos, .expression expr⟩] :=
  .whole rfl rfl

theorem Expr.optionEvaluated_fills (pos : Nat) (expr : Option Expr) :
    Fills (expr.toList.map .expression) (optionEvaluated pos expr) := by
  cases expr with
  | none => exact .nil
  | some expr => exact expr.fills pos

namespace Stmt

/-- The nodes that a statement evaluates fill it. -/
def Fills (stmt : Stmt) : Prop :=
  ∀ pos, Element.Fills [statement stmt] (stmt.evaluated pos)

theorem evaluatedIn_fills {stmts : List Stmt} (h : ∀ stmt ∈ stmts, Stmt.Fills stmt) (pos : Nat) :
    Element.Fills (stmts.map statement) (evaluatedIn pos stmts) := by
  induction stmts generalizing pos with
  | nil => exact .nil
  | cons stmt stmts ih =>
    obtain ⟨hstmt, hstmts⟩ := List.forall_mem_cons.1 h
    exact (hstmt pos).append (ih hstmts _)

theorem optionEvaluated_fills {stmt : Option Stmt} (h : ∀ part ∈ stmt, Stmt.Fills part)
    (pos : Nat) : Element.Fills (stmt.toList.map statement) (stmt.elim [] (·.evaluated pos)) := by
  cases stmt with
  | none => exact .nil
  | some stmt => exact h stmt rfl pos

/-- The update of a `for` stands in front of the body and is evaluated behind it. -/
theorem Fills.forStmt {range : Range} {init : Option Stmt} {test update : Option Expr} {body : Stmt}
    (ho : (statement (.forStmt range init test update body)).Ordered)
    (hi : ∀ part ∈ init, Stmt.Fills part) (hb : body.Fills) :
    (Stmt.forStmt range init test update body).Fills := by
  intro pos
  let testPos := pos + 1 + optionSize init
  let bodyPos := testPos + Expr.optionSize test
  have hinit := optionEvaluated_fills hi (pos + 1)
  have htest := Expr.optionEvaluated_fills testPos test
  have hupdate := Expr.optionEvaluated_fills (bodyPos + body.size) update
  have hparts := ((hinit.append htest).append hupdate).append (hb bodyPos)
  rw [List.append_assoc (_ ++ _) (Expr.optionEvaluated ..)] at hparts
  have hinner := hparts.perm (List.perm_append_comm.append_left _)
  rw [← List.append_assoc] at hinner
  rw [evaluated_forStmt]
  cases test with
  | none =>
    rw [show Expr.optionEvaluated testPos none = [] from rfl, List.append_nil] at hinner
    rw [show Expr.optionEvaluated testPos none = [] from rfl, List.append_nil]
    exact .hold ho ho.opens rfl rfl hinner
  | some test => exact .wrap ho hinner

end Stmt

theorem Stmt.held_of_isHead {stmt : Stmt} (h : stmt.isHead = true) (pos : Nat) :
    Element.held ⟨pos, .statement stmt⟩ = [] := by
  cases stmt <;> first | rfl | cases h

theorem Block.evaluated_fills {block : Block} (ho : (Piece.block block).Ordered)
    (h : ∀ stmt ∈ block.body, Stmt.Fills stmt) (pos : Nat) :
    Fills [.block block] (Stmt.evaluatedIn pos block.body) := by
  obtain ⟨_, body⟩ := block
  exact .wrap ho (Stmt.evaluatedIn_fills h pos)

theorem Block.optionEvaluated_fills {block : Option Block}
    (ho : ∀ part ∈ block, (Piece.block part).Ordered)
    (h : ∀ part ∈ block, ∀ stmt ∈ Block.body part, Stmt.Fills stmt) (pos : Nat) :
    Fills (block.toList.map .block) ((block.map (·.rescue pos)).elim [] Rescue.evaluated) := by
  cases block with
  | none => exact .nil
  | some block => exact evaluated_fills (ho block rfl) (h block rfl) pos

theorem Handler.optionEvaluated_fills {handler : Option Handler}
    (ho : ∀ part ∈ handler, (Piece.handler part).Ordered ∧ (Piece.block part.body).Ordered)
    (h : ∀ part ∈ handler, ∀ stmt ∈ Block.body (Handler.body part), Stmt.Fills stmt) (pos : Nat) :
    Fills (handler.toList.map .handler)
      ((handler.map (·.rescue pos)).elim [] Rescue.evaluated) := by
  rcases handler with _ | ⟨_, parameter, body⟩
  · exact .nil
  · obtain ⟨hhandler, hbody⟩ := ho _ rfl
    exact .wrap hhandler ((Expr.optionEvaluated_fills pos parameter).append
      (Block.evaluated_fills hbody (h _ rfl) _))

theorem Clause.evaluated_fills {clauses : List Clause}
    (ho : ∀ clause ∈ clauses, (Piece.clause clause).Ordered)
    (h : ∀ clause ∈ clauses, ∀ stmt ∈ Clause.body clause, Stmt.Fills stmt) (pos : Nat) :
    Fills (clauses.map .clause) (Clause.evaluated pos clauses) := by
  induction clauses generalizing pos with
  | nil => exact .nil
  | cons clause clauses ih =>
    obtain ⟨_, test, body⟩ := clause
    obtain ⟨hclause, hclauses⟩ := List.forall_mem_cons.1 h
    obtain ⟨hordered, hothers⟩ := List.forall_mem_cons.1 ho
    have htest := Expr.optionEvaluated_fills pos test
    have hbody := Stmt.evaluatedIn_fills hclause (pos + Expr.optionSize test)
    exact (Fills.wrap hordered (htest.append hbody)).append (ih hothers hclauses _)

theorem Upholds.fills {stmt : Stmt} (h : Upholds Piece.Ordered stmt) : stmt.Fills := by
  induction h with
  | expression h => exact fun _ => .wrap h (Expr.fills _ _)
  | declaration | function | debugger | jump | returnStmt | throwStmt =>
    exact fun _ => .whole rfl rfl
  | empty | withStmt => exact fun _ => .nil
  | @ifStmt range test body orElse h hb he ihb ihe =>
    intro pos
    rw [Stmt.evaluated_ifStmt]
    exact .wrap h ((Expr.fills _ test).append ((ihb _).append (Stmt.optionEvaluated_fills ihe _)))
  | @whileStmt range test body h hb ih =>
    exact fun _ => .wrap h ((Expr.fills _ test).append (ih _))
  | @doStmt range body test h hb ih =>
    exact fun _ => .wrap h ((ih _).append (Expr.fills _ test))
  | forStmt h hi hb ihi ihb => exact .forStmt h ihi ihb
  | @forEach range kind left right body h hb ih =>
    intro pos
    have hleft : Fills [statement left] [⟨pos + 1 + right.size, .statement left⟩] :=
      .whole rfl (Stmt.held_of_isHead h.head _)
    exact (Fills.wrap h (hleft.append ((Expr.fills _ right).append (ih _)))).perm (.swap ..)
  | @tryStmt range tried handler finalizer h ht hb hh hc hf hs ihb ihc ihs =>
    intro pos
    have htried := Block.evaluated_fills ht ihb (pos + 1)
    rw [Stmt.evaluated_tryStmt, List.append_assoc]
    exact .wrap h (htried.append ((Handler.optionEvaluated_fills hh ihc _).append
      (Block.optionEvaluated_fills hf ihs _)))
  | @switchStmt range discriminant clauses h hc hb ih =>
    exact fun _ => .wrap h ((Expr.fills _ discriminant).append (Clause.evaluated_fills hc ih _))
  | block h hb ih => exact fun _ => .wrap h (Stmt.evaluatedIn_fills ih _)
  | @labeled range label body h hb ih =>
    have hlabel : Fills [.identifier label] [] := .nil
    exact fun _ => .wrap h (hlabel.append (ih _))

/-- The statements of a body stand one behind the other, and all that is in them is in order. -/
structure Body.InOrder (body : Body) : Prop where
  upholds : ∀ stmt ∈ body.stmts, Upholds Piece.Ordered stmt
  row : ∃ outer, Piece.Row outer (body.stmts.map statement)
  lined : Piece.Lined (body.stmts.map statement)

theorem Body.InOrder.spread {body : Body} (h : body.InOrder) :
    Element.Spread (body.stmts.map statement) body.evaluated :=
  Stmt.evaluatedIn_fills (fun stmt hm => (h.upholds stmt hm).fills) _ h.lined

theorem Script.ordered_of_parse (h : Script.parse source = .ok script) :
    ∀ piece ∈ script.pieces, piece.Ordered := by
  obtain ⟨others, last, -, -, hpieces, -⟩ := placed_of_parse h
  intro piece hm
  obtain ⟨hplaced, hhead, hopens⟩ := hpieces piece hm
  refine ⟨hplaced.spans.nonempty, fun child hc => ?_, hplaced.row, hhead, hopens⟩
  have hchild := pieces_subset hm (Piece.mem_pieces_of_child hc)
  exact (hpieces child hchild).1.spans.nonempty

theorem Script.inOrder_of_parse (h : Script.parse source = .ok script) {body : Body}
    (hb : body ∈ script.bodies) : body.InOrder := by
  have hordered := ordered_of_parse h
  have hpieces := pieces_subset_of_body hb
  have hrow : ∃ outer, Piece.Row outer (body.stmts.map statement) := by
    rcases exists_suffix_of_body hb with hs | ⟨piece, hm, hs⟩
    · obtain ⟨_, _, -, -, -, hrow, -⟩ := placed_of_parse h
      exact ⟨script.range, hs ▸ hrow⟩
    · exact ⟨piece.range, (hordered piece hm).row.sublist hs.sublist⟩
  refine ⟨fun stmt hm => stmt.upholds fun part hp => hordered part (hpieces stmt hm hp), hrow, ?_⟩
  constructor
  · rw [List.forall_mem_map]
    exact fun stmt hm => (hordered _ (hpieces stmt hm (Piece.self_mem_pieces _))).nonempty
  · exact hrow.elim fun _ hrow => hrow.apart

end FlowLint
