import FlowLint.Proofs.Tree.Piece
import FlowLint.Proofs.Tree.Positions

namespace FlowLint
set_option autoImplicit true

def Event.nodes (events : List Event) : List Node :=
  (elements events).map (·.node)

@[simp] theorem Event.nodes_nil : nodes [] = [] := rfl

@[simp] theorem Event.nodes_append (events events' : List Event) :
    nodes (events ++ events') = nodes events ++ nodes events' := by
  simp [nodes]

@[simp] theorem Event.nodes_node (element : Element) (events : List Event) :
    nodes (node element :: events) = element.node :: nodes events :=
  rfl

@[simp] theorem Event.nodes_body (stmts : List Stmt) (events : List Event) :
    nodes (body stmts :: events) = nodes events :=
  rfl

@[simp] theorem Event.nodes_handler (range : Range) (events : List Event) :
    nodes (handler range :: events) = nodes events :=
  rfl

@[simp] theorem Event.nodes_clause (range : Range) (isDefault : Bool) (events : List Event) :
    nodes (clause range isDefault :: events) = nodes events :=
  rfl

namespace Piece

def node? : Piece → Option Node
  | expression expr => some (.expression expr)
  | statement stmt => some (.statement stmt)
  | _ => none

/-- The nodes in a piece, in the order of the source. -/
def nodes (piece : Piece) : List Node :=
  piece.pieces.filterMap node?

theorem nodes_eq (piece : Piece) :
    piece.nodes = piece.node?.toList ++ piece.children.flatMap nodes := by
  rw [nodes, pieces_eq, List.filterMap_cons, List.filterMap_flatMap]
  cases piece.node? <;> rfl

end Piece

/-- Events meet the nodes of some pieces, in an order of their own. -/
def Visits (events : List Event) (pieces : List Piece) : Prop :=
  (Event.nodes events).Perm (pieces.flatMap Piece.nodes)

namespace Piece

/-- The walk over a piece whose first node is at `pos`. -/
def walk (pos : Nat) : Piece → List Event
  | identifier _ => []
  | expression expr => expr.walk .deep pos
  | statement stmt => stmt.walk .deep pos
  | declarator d => Declarator.walks .deep pos [d]
  | block b => b.walk .deep pos
  | handler h => Handler.optionWalk .deep pos (some h)
  | clause c => Clause.walks .deep pos [c]

/-- A walk over the piece visits its nodes, wherever it starts to count. -/
def Visited (piece : Piece) : Prop :=
  ∀ pos, Visits (piece.walk pos) [piece]

end Piece

namespace Visits

theorem empty : Visits [] [] :=
  .nil

theorem append (h : Visits events pieces) (h' : Visits events' pieces') :
    Visits (events ++ events') (pieces ++ pieces') := by
  rw [Visits, Event.nodes_append, List.flatMap_append]
  exact List.Perm.append h h'

/-- A walk may take two groups of pieces in the other order. -/
theorem swap (h : Visits events (pieces ++ pieces')) : Visits events (pieces' ++ pieces) := by
  rw [Visits, List.flatMap_append] at *
  exact h.trans List.perm_append_comm

theorem cons {node : Node} (h : Visits events piece.children) (hn : piece.node? = some node) :
    Visits (.node ⟨pos, node⟩ :: events) [piece] := by
  rw [Visits, Event.nodes_node, List.flatMap_singleton, Piece.nodes_eq, hn]
  exact List.Perm.cons _ h

/-- A piece that is no node only has the nodes of its children. -/
theorem wrap (h : Visits events piece.children) (hn : piece.node? = none) :
    Visits events [piece] := by
  rw [Visits, List.flatMap_singleton, Piece.nodes_eq, hn]
  exact h

theorem mark (he : Event.nodes [event] = []) (h : Visits events pieces) :
    Visits (event :: events) pieces := by
  rw [Visits, ← List.singleton_append, Event.nodes_append, he]
  exact h

theorem names (ids : List Identifier) (h : Visits events pieces) :
    Visits events (ids.map .identifier ++ pieces) := by
  induction ids with
  | nil => exact h
  | cons id ids ih =>
    have hid : Visits [] [.identifier id] := wrap empty rfl
    exact hid.append ih

theorem expressions (h : ∀ expr ∈ exprs, (Piece.expression expr).Visited) (pos : Nat) :
    Visits (Expr.walks .deep pos exprs) (exprs.map .expression) := by
  induction exprs generalizing pos with
  | nil => exact .empty
  | cons expr exprs ih =>
    obtain ⟨he, hes⟩ := List.forall_mem_cons.1 h
    exact (he pos).append (ih hes _)

theorem expression? (h : ∀ expr ∈ option.toList, (Piece.expression expr).Visited) (pos : Nat) :
    Visits (Expr.optionWalk .deep pos option) (option.toList.map .expression) := by
  cases option with
  | none => exact .empty
  | some expr => exact h expr (List.mem_singleton_self _) pos

theorem statements (h : ∀ stmt ∈ stmts, (Piece.statement stmt).Visited) (pos : Nat) :
    Visits (Stmt.walks .deep pos stmts) (stmts.map .statement) := by
  induction stmts generalizing pos with
  | nil => exact .empty
  | cons stmt stmts ih =>
    obtain ⟨hs, hss⟩ := List.forall_mem_cons.1 h
    exact (hs pos).append (ih hss _)

theorem statement? (h : ∀ stmt ∈ option.toList, (Piece.statement stmt).Visited) (pos : Nat) :
    Visits (Stmt.optionWalk .deep pos option) (option.toList.map .statement) := by
  cases option with
  | none => exact .empty
  | some stmt => exact h stmt (List.mem_singleton_self _) pos

end Visits

namespace Piece

theorem expression_visited {expr : Expr} (ih : ∀ child ∈ expr.children, child.Visited) :
    (expression expr).Visited := by
  intro pos
  rw [walk, Expr.walk.eq_def]
  apply Visits.cons _ rfl
  change Visits _ expr.children
  cases expr with
  | name | number | string | boolean | null => exact .empty
  | array range elements | sequence range elements =>
    exact .expressions (List.forall_mem_map.1 ih) _
  | call range callee arguments | new range callee arguments =>
    obtain ⟨hcallee, harguments⟩ := List.forall_mem_cons.1 ih
    exact (hcallee _).append (.expressions (List.forall_mem_map.1 harguments) _)
  | member range object property =>
    have hobject := ih (expression object) (List.mem_cons_self ..)
    exact .swap (.names [property] (hobject _))
  | subscript range object index =>
    obtain ⟨hobject, hindex, -⟩ := by simpa only [Expr.children, List.forall_mem_cons] using ih
    exact (hobject _).append (hindex _)
  | unary range op operand | update range op fixity operand =>
    exact ih (expression operand) (List.mem_cons_self ..) _
  | binary range op left right =>
    obtain ⟨hleft, hright, -⟩ := by simpa only [Expr.children, List.forall_mem_cons] using ih
    exact (hleft _).append (hright _)
  | assign range op target value =>
    obtain ⟨htarget, hvalue, -⟩ := by simpa only [Expr.children, List.forall_mem_cons] using ih
    exact .swap ((hvalue _).append (htarget _))
  | conditional range test whenTrue whenFalse =>
    obtain ⟨htest, htrue, hfalse, -⟩ := by
      simpa only [Expr.children, List.forall_mem_cons] using ih
    exact ((htest _).append (htrue _)).append (hfalse _)
  | function range name parameters body =>
    obtain ⟨-, hbody⟩ := List.forall_mem_append.1 ih
    have hstmts := Visits.statements (List.forall_mem_map.1 hbody) (pos + 1)
    rw [Expr.children, List.append_assoc]
    exact .mark rfl (.names name.toList (.names parameters hstmts))

theorem declarators_visited {declarators : List Declarator}
    (h : ∀ d ∈ declarators, (declarator d).Visited) (pos : Nat) :
    Visits (Declarator.walks .deep pos declarators) (declarators.map .declarator) := by
  induction declarators generalizing pos with
  | nil => exact .empty
  | cons d ds ih =>
    obtain ⟨hd, hds⟩ := List.forall_mem_cons.1 h
    obtain ⟨_, _, init⟩ := d
    have hinit := hd pos
    simp only [walk, Declarator.walks, List.append_nil] at hinit
    exact hinit.append (ih hds _)

theorem clauses_visited {clauses : List Clause}
    (h : ∀ c ∈ clauses, (clause c).Visited) (pos : Nat) :
    Visits (Clause.walks .deep pos clauses) (clauses.map .clause) := by
  induction clauses generalizing pos with
  | nil => exact .empty
  | cons c cs ih =>
    obtain ⟨hc, hcs⟩ := List.forall_mem_cons.1 h
    obtain ⟨_, test, body⟩ := c
    have hclause := hc pos
    simp only [walk, Clause.walks, List.append_nil] at hclause
    exact hclause.append (ih hcs _)

theorem handler?_visited {option : Option Handler} (h : ∀ x ∈ option.toList, (handler x).Visited)
    (pos : Nat) : Visits (Handler.optionWalk .deep pos option) (option.toList.map .handler) := by
  cases option with
  | none => exact .empty
  | some x => exact h x (List.mem_singleton_self _) pos

theorem block?_visited {option : Option Block} (h : ∀ x ∈ option.toList, (block x).Visited)
    (pos : Nat) : Visits (Block.optionWalk .deep pos option) (option.toList.map .block) := by
  cases option with
  | none => exact .empty
  | some x => exact h x (List.mem_singleton_self _) pos

theorem statement_visited {stmt : Stmt} (ih : ∀ child ∈ stmt.children, child.Visited) :
    (statement stmt).Visited := by
  intro pos
  rw [walk, Stmt.walk.eq_def]
  apply Visits.cons _ rfl
  change Visits _ stmt.children
  cases stmt with
  | expression range value | throwStmt range value =>
    exact ih (.expression value) (List.mem_cons_self ..) _
  | declaration range kind declarators => exact declarators_visited (List.forall_mem_map.1 ih) _
  | function range name parameters body =>
    obtain ⟨-, hrest⟩ := List.forall_mem_cons.1 ih
    obtain ⟨-, hbody⟩ := List.forall_mem_append.1 hrest
    exact .mark rfl (.names (name :: parameters) (.statements (List.forall_mem_map.1 hbody) _))
  | ifStmt range test body orElse =>
    obtain ⟨htest, hbody, helse⟩ := by simpa only [Stmt.children, List.forall_mem_cons] using ih
    exact ((htest _).append (hbody _)).append (.statement? (List.forall_mem_map.1 helse) _)
  | whileStmt range test body | withStmt range test body =>
    obtain ⟨htest, hbody, -⟩ := by simpa only [Stmt.children, List.forall_mem_cons] using ih
    exact (htest _).append (hbody _)
  | doStmt range body test =>
    obtain ⟨hbody, htest, -⟩ := by simpa only [Stmt.children, List.forall_mem_cons] using ih
    exact (hbody _).append (htest _)
  | forStmt range init test update body =>
    simp only [Stmt.children, List.forall_mem_append, List.forall_mem_map,
      List.forall_mem_singleton] at ih
    obtain ⟨⟨⟨hinit, htest⟩, hupdate⟩, hbody⟩ := ih
    -- The update stands in front of the body and is visited behind it.
    simp only [Stmt.children, List.append_assoc]
    exact (Visits.statement? hinit _).append ((Visits.expression? htest _).append
      (.swap ((hbody _).append (.expression? hupdate _))))
  | forEach range kind left right body =>
    obtain ⟨hleft, hright, hbody, -⟩ := by
      simpa only [Stmt.children, List.forall_mem_cons] using ih
    exact ((hright _).append (hleft _)).swap.append (hbody _)
  | jump range kind label =>
    have hlabel := Visits.names label.toList .empty
    rwa [List.append_nil] at hlabel
  | empty | debugger => exact .empty
  | returnStmt range value => exact .expression? (List.forall_mem_map.1 ih) _
  | tryStmt range tried handler finalizer =>
    obtain ⟨htried, hrest⟩ := List.forall_mem_cons.1 ih
    obtain ⟨hhandler, hfinalizer⟩ := List.forall_mem_append.1 hrest
    simp only [Stmt.children, List.append_assoc]
    exact (htried _).append ((handler?_visited (List.forall_mem_map.1 hhandler) _).append
      (block?_visited (List.forall_mem_map.1 hfinalizer) _))
  | switchStmt range discriminant clauses =>
    obtain ⟨hdiscriminant, hclauses⟩ := List.forall_mem_cons.1 ih
    exact (hdiscriminant _).append (clauses_visited (List.forall_mem_map.1 hclauses) _)
  | block range body => exact .mark rfl (.statements (List.forall_mem_map.1 ih) _)
  | labeled range label body =>
    have hbody := ih (.statement body) (List.mem_cons_of_mem _ (List.mem_cons_self ..))
    exact .names [label] (hbody _)

theorem visited (piece : Piece) : piece.Visited := by
  induction piece using Piece.induction with
  | step piece ih =>
    match piece with
    | identifier _ => exact fun _ => .names [_] .empty
    | expression expr => exact expression_visited ih
    | statement stmt => exact statement_visited ih
    | declarator ⟨_, name, init⟩ =>
      obtain ⟨-, hinit⟩ := List.forall_mem_cons.1 ih
      intro pos
      apply Visits.wrap _ rfl
      rw [walk, Declarator.walks, Declarator.walks, List.append_nil]
      exact .names [name] (.expression? (List.forall_mem_map.1 hinit) _)
    | block ⟨_, body⟩ =>
      exact fun _ => .wrap (.mark rfl (.statements (List.forall_mem_map.1 ih) _)) rfl
    | handler ⟨_, parameter, body⟩ =>
      obtain ⟨hparameter, hbody⟩ := List.forall_mem_append.1 ih
      intro pos
      apply Visits.wrap _ rfl
      exact .mark rfl (.append (.expression? (List.forall_mem_map.1 hparameter) _)
        (List.forall_mem_singleton.1 hbody _))
    | clause ⟨_, test, body⟩ =>
      obtain ⟨htest, hbody⟩ := List.forall_mem_append.1 ih
      intro pos
      apply Visits.wrap _ rfl
      rw [walk, Clause.walks, Clause.walks, List.append_nil]
      exact .mark rfl (.append (.expression? (List.forall_mem_map.1 htest) _)
        (.mark rfl (.statements (List.forall_mem_map.1 hbody) _)))

end Piece

def Script.treeNodes (script : Script) : List Node :=
  script.pieces.filterMap Piece.node?

/-- The walk over a script visits the statements and expressions of its tree, each of them once. -/
theorem Script.walk_nodes_perm (script : Script) :
    ((Event.elements script.walk).map (·.node)).Perm script.treeNodes := by
  rw [treeNodes, pieces, List.filterMap_flatMap]
  exact Visits.statements (fun stmt _ => Piece.visited (.statement stmt)) 0

theorem Script.exists_piece_of_mem_walk {script : Script}
    (h : element ∈ Event.elements script.walk) :
    ∃ piece ∈ script.pieces, piece.node? = some element.node := by
  have htree : element.node ∈ script.treeNodes :=
    script.walk_nodes_perm.subset (List.mem_map_of_mem h)
  exact List.mem_filterMap.1 htree

end FlowLint
