import FlowLint.Tree.Basic

namespace FlowLint
set_option autoImplicit true

/-- A part of a syntax tree with a range of its own. -/
inductive Piece
  | identifier (id : Identifier)
  | expression (expr : Expr)
  | statement (stmt : Stmt)
  | declarator (declarator : Declarator)
  | block (block : Block)
  | handler (handler : Handler)
  | clause (clause : Clause)

def Piece.range : Piece → Range
  | identifier id => id.range
  | expression expr => expr.range
  | statement stmt => stmt.range
  | declarator ⟨range, _, _⟩ | block ⟨range, _⟩ => range
  | handler ⟨range, _, _⟩ | clause ⟨range, _, _⟩ => range

def Expr.children : Expr → List Piece
  | .name .. | .number .. | .string .. | .boolean .. | .null .. => []
  | .array _ elements | .sequence _ elements => elements.map .expression
  | .call _ callee arguments | .new _ callee arguments =>
    .expression callee :: arguments.map .expression
  | .member _ object property => [.expression object, .identifier property]
  | .subscript _ object index => [.expression object, .expression index]
  | .unary _ _ operand => [.expression operand]
  | .update _ _ _ target => [.expression target]
  | .binary _ _ left right => [.expression left, .expression right]
  | .assign _ _ target value => [.expression target, .expression value]
  | .conditional _ test whenTrue whenFalse =>
    [.expression test, .expression whenTrue, .expression whenFalse]
  | .function _ id parameters body =>
    id.toList.map .identifier ++ parameters.map .identifier ++ body.map .statement

def Stmt.children : Stmt → List Piece
  | .expression _ value => [.expression value]
  | .declaration _ _ declarators => declarators.map .declarator
  | .function _ id parameters body =>
    .identifier id :: (parameters.map .identifier ++ body.map .statement)
  | .ifStmt _ test body orElse =>
    .expression test :: .statement body :: orElse.toList.map .statement
  | .whileStmt _ test body => [.expression test, .statement body]
  | .doStmt _ body test => [.statement body, .expression test]
  | .forStmt _ init test update body =>
    init.toList.map .statement ++ test.toList.map .expression ++ update.toList.map .expression ++
      [.statement body]
  | .forEach _ _ left right body => [.statement left, .expression right, .statement body]
  | .jump _ _ label => label.toList.map .identifier
  | .returnStmt _ value => value.toList.map .expression
  | .throwStmt _ value => [.expression value]
  | .tryStmt _ tried handler finalizer =>
    .block tried :: (handler.toList.map .handler ++ finalizer.toList.map .block)
  | .switchStmt _ discriminant clauses => .expression discriminant :: clauses.map .clause
  | .block _ body => body.map .statement
  | .labeled _ label body => [.identifier label, .statement body]
  | .empty _ | .debugger _ => []
  | .withStmt _ object body => [.expression object, .statement body]

namespace Piece

/-- The pieces a piece is made of, in the order of the source. -/
def children : Piece → List Piece
  | identifier _ => []
  | expression expr => expr.children
  | statement stmt => stmt.children
  | declarator ⟨_, name, init⟩ => .identifier name :: init.toList.map .expression
  | block ⟨_, body⟩ => body.map .statement
  | handler ⟨_, parameter, body⟩ => parameter.toList.map .expression ++ [.block body]
  | clause ⟨_, test, body⟩ => test.toList.map .expression ++ body.map .statement

theorem sizeOf_lt_of_mem_list {α : Type} [SizeOf α] {xs : List α} (h : sizeOf xs ≤ n) :
    ∀ x ∈ xs, sizeOf x < n :=
  fun _ hx => Nat.lt_of_lt_of_le (List.sizeOf_lt_of_mem hx) h

theorem sizeOf_lt_of_mem_toList {α : Type} [SizeOf α] {option : Option α} (h : sizeOf option ≤ n) :
    ∀ x ∈ option.toList, sizeOf x < n := by
  intro x hx
  obtain rfl := Option.mem_toList.1 hx
  rw [Option.some.sizeOf_spec] at h
  omega

theorem sizeOf_lt_of_mem_children (piece : Piece) :
    ∀ child ∈ piece.children, sizeOf child < sizeOf piece := by
  rcases piece with _ | expr | stmt | ⟨_, _, _⟩ | ⟨_, _⟩ | ⟨_, _, _⟩ | ⟨_, _, _⟩
  case' expression => cases expr
  case' statement => cases stmt
  -- A child is a part of its piece, or stands in a list or an option that is one.
  all_goals
    simp [children, Expr.children, Stmt.children, or_imp, forall_and, -Option.mem_toList]
    try and_intros
  all_goals first
    | omega
    | apply sizeOf_lt_of_mem_list; omega
    | apply sizeOf_lt_of_mem_toList; omega

/-- What holds of a piece once it holds of its children holds of all pieces. -/
@[elab_as_elim]
theorem induction {motive : Piece → Prop}
    (step : ∀ piece, (∀ child ∈ piece.children, motive child) → motive piece) (piece : Piece) :
    motive piece :=
  step piece fun child h =>
    have := piece.sizeOf_lt_of_mem_children child h
    child.induction step
termination_by piece

def pieces (piece : Piece) : List Piece :=
  piece :: piece.children.attach.flatMap fun ⟨child, h⟩ =>
    have := piece.sizeOf_lt_of_mem_children child h
    child.pieces
termination_by piece

theorem pieces_eq (piece : Piece) : piece.pieces = piece :: piece.children.flatMap pieces := by
  rw [pieces, List.flatMap_subtype, List.unattach_attach]
  exact fun _ _ => rfl

theorem pieces_subset {piece part : Piece} (h : part ∈ piece.pieces) :
    part.pieces ⊆ piece.pieces := by
  induction piece using Piece.induction with
  | step piece ih =>
    rw [pieces_eq] at h
    rcases List.mem_cons.1 h with rfl | h
    · exact List.Subset.refl _
    · rw [pieces_eq piece]
      obtain ⟨child, hc, hp⟩ := List.mem_flatMap.1 h
      intro other hm
      exact List.mem_cons_of_mem _ (List.mem_flatMap.2 ⟨child, hc, ih child hc hp hm⟩)

theorem self_mem_pieces (piece : Piece) : piece ∈ piece.pieces := by
  rw [pieces_eq]
  exact List.mem_cons_self ..

theorem mem_pieces_of_child {piece child : Piece} (h : child ∈ piece.children) :
    child ∈ piece.pieces := by
  rw [pieces_eq]
  exact List.mem_cons_of_mem _ (List.mem_flatMap.2 ⟨child, h, child.self_mem_pieces⟩)

theorem pieces_subset_of_child {piece child : Piece} (h : child ∈ piece.children) :
    child.pieces ⊆ piece.pieces :=
  pieces_subset (mem_pieces_of_child h)

end Piece

def Script.pieces (script : Script) : List Piece :=
  (script.body.map .statement).flatMap Piece.pieces

theorem Script.pieces_subset {script : Script} {piece : Piece} (h : piece ∈ script.pieces) :
    piece.pieces ⊆ script.pieces := by
  obtain ⟨top, ht, hp⟩ := List.mem_flatMap.1 h
  intro part hm
  exact List.mem_flatMap.2 ⟨top, ht, Piece.pieces_subset hp hm⟩

/-- What may stand in the head of a loop over a subject. -/
def Stmt.isHead : Stmt → Bool
  | .expression .. | .declaration .. => true
  | _ => false

namespace Piece

/-- A loop over a subject has an expression or a declaration on its left side. -/
def HasPlainHead : Piece → Prop
  | statement (.forEach _ _ left _ _) => left.isHead = true
  | _ => True

def PlainHeads (piece : Piece) : Prop :=
  ∀ part ∈ piece.pieces, part.HasPlainHead

/-- A `for` begins in front of everything in it. -/
def OpensFirst : Piece → Prop
  | statement (.forStmt range init test update body) =>
    ∀ child ∈ (Stmt.forStmt range init test update body).children,
      range.start < child.range.start
  | _ => True

end Piece

def Script.PlainHeads (script : Script) : Prop :=
  ∀ piece ∈ script.pieces, piece.HasPlainHead

end FlowLint
