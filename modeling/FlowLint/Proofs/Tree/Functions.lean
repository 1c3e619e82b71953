import FlowLint.Proofs.Tree.Visited
import Mathlib.Data.List.Pairwise

namespace FlowLint
set_option autoImplicit true

/-- What a body is apart from its position: its owner, its range and its statements. -/
abbrev BodyContent :=
  Owner × Range × List Stmt

def Body.content (body : Body) : BodyContent :=
  (body.owner, body.range, body.stmts)

/-- The function that a piece is, if it is a declaration or an expression of one. -/
def Piece.function? : Piece → Option BodyContent
  | statement (.function _ name _ body) => some (.declaration name, name.range, body)
  | expression (.function range name _ body) => some (.expression name, range, body)
  | _ => none

def Script.functions (script : Script) : List BodyContent :=
  script.pieces.filterMap Piece.function?

def Body.allNodes (body : Body) : List Element :=
  Event.elements (Stmt.walks .deep body.position body.stmts)

def Body.functions (body : Body) : List Body :=
  body.allNodes.filterMap Body.ofElement?

def Node.function? : Node → Option BodyContent
  | .statement stmt => (Piece.statement stmt).function?
  | .expression expr => (Piece.expression expr).function?

theorem Body.content_ofElement? (element : Element) :
    (ofElement? element).map content = element.node.function? := by
  obtain ⟨position, node⟩ := element
  cases node with
  | statement stmt => cases stmt <;> rfl
  | expression expr => cases expr <;> rfl

/-- The statements of a function are the last children of its piece. -/
theorem Body.suffix_of_ofElement? {piece : Piece} {body : Body} {element : Element}
    (ho : ofElement? element = some body) (hn : piece.node? = some element.node) :
    body.stmts.map Piece.statement <:+ piece.children := by
  obtain ⟨position, node⟩ := element
  cases piece with
  | expression expr =>
    cases hn
    cases expr with
    | function =>
      cases ho
      exact List.suffix_append ..
    | _ => cases ho
  | statement outer =>
    cases hn
    cases outer with
    | function =>
      cases ho
      exact (List.suffix_append ..).trans (List.suffix_cons ..)
    | _ => cases ho
  | _ => cases hn

theorem Piece.function?_eq (piece : Piece) : piece.function? = piece.node?.bind Node.function? := by
  cases piece <;> rfl

/-- Behind the body of a script stand the bodies of the functions in its tree, each of them once. -/
theorem Script.bodies_functions (script : Script) :
    ∃ bodies, script.bodies = Body.ofScript script :: bodies ∧
      (bodies.map Body.content).Perm script.functions := by
  refine ⟨_, rfl, ?_⟩
  have hcontent (elements : List Element) :
      (elements.filterMap Body.ofElement?).map Body.content =
        (elements.map (·.node)).filterMap Node.function? := by
    rw [List.map_filterMap, List.filterMap_map]
    exact List.filterMap_congr fun element _ => Body.content_ofElement? element
  have hfunctions : script.functions = script.treeNodes.filterMap Node.function? := by
    rw [functions, treeNodes, List.filterMap_filterMap]
    exact List.filterMap_congr fun piece _ => piece.function?_eq
  rw [hcontent, hfunctions]
  exact script.walk_nodes_perm.filterMap _

theorem Body.position_of_ofElement? (h : Body.ofElement? element = some body) :
    body.position = element.position + 1 := by
  unfold Body.ofElement? at h
  split at h <;> cases h <;> rfl

theorem Walked.allNodes_sublist (h : Walked pos deep shallow size)
    (he : element ∈ Event.elements deep) (hb : Body.ofElement? element = some body) :
    body.allNodes.Sublist (Event.elements deep) := by
  induction h with
  | nil => cases he
  | append _ _ ih ih' =>
    rw [Event.elements_append] at he ⊢
    rcases List.mem_append.1 he with he | he
    · exact (ih he).trans (List.sublist_append_left ..)
    · exact (ih' he).trans (List.sublist_append_right ..)
  | mark hm _ ih =>
    rw [Event.elements_cons, hm] at he ⊢
    exact ih he
  | node hn _ ih =>
    rw [Event.elements_node] at he ⊢
    rcases List.mem_cons.1 he with rfl | he
    · cases hn.symm.trans hb
    · exact (ih he).cons _
  | function other hn _ ih =>
    rw [Event.elements_node, Event.elements_body] at he ⊢
    rcases List.mem_cons.1 he with rfl | he
    · obtain rfl := Option.some.inj (hn.symm.trans hb)
      exact (List.Sublist.refl _).cons _
    · exact (ih he).cons _

namespace Script

theorem allNodes_sublist {script : Script} {body : Body} (hb : body ∈ script.bodies) :
    body.allNodes.Sublist (Event.elements script.walk) := by
  rcases List.mem_cons.1 hb with rfl | hb
  · exact .refl _
  · obtain ⟨element, he, ho⟩ := List.mem_filterMap.1 hb
    exact (Stmt.walks_walked 0 script.body).allNodes_sublist he ho

theorem bodies_pairwise (script : Script) :
    script.bodies.Pairwise fun left right => left.position < right.position := by
  have hp : (Event.elements script.walk).Pairwise fun left right =>
      left.position < right.position := by
    rw [← List.pairwise_map (f := Element.position) (R := (· < ·)), positions]
    exact List.pairwise_lt_range
  refine List.pairwise_cons.2 ⟨?_, ?_⟩
  · intro body hm
    obtain ⟨element, -, ho⟩ := List.mem_filterMap.1 hm
    rw [Body.position_of_ofElement? ho]
    exact Nat.succ_pos _
  · apply hp.filterMap
    intro left right hlt body ho body' ho'
    rw [Body.position_of_ofElement? ho, Body.position_of_ofElement? ho']
    omega

theorem sublist_of_position_lt {script : Script} {left right : Body} (hl : left ∈ script.bodies)
    (hr : right ∈ script.bodies) (hlt : left.position < right.position) :
    [left, right].Sublist script.bodies := by
  have hp := script.bodies_pairwise
  obtain ⟨before, after, he⟩ := List.append_of_mem hl
  rw [he] at hp hr ⊢
  obtain ⟨-, -, hbefore⟩ := List.pairwise_append.1 hp
  have hafter : right ∈ after := by
    rcases List.mem_append.1 hr with hm | hm
    · have hgt := hbefore right hm left (List.mem_cons_self ..)
      omega
    · rcases List.mem_cons.1 hm with rfl | hm
      · exact absurd hlt (Nat.lt_irrefl _)
      · exact hm
  have htail : [left, right].Sublist (left :: after) :=
    (List.singleton_sublist.2 hafter).cons_cons _
  exact htail.trans (List.sublist_append_right ..)

/-- A function in a body has a body of its own behind it. -/
theorem inner_sublist_bodies {script : Script} {outer inner : Body} (ho : outer ∈ script.bodies)
    (hi : inner ∈ outer.functions) : [outer, inner].Sublist script.bodies := by
  obtain ⟨element, he, hb⟩ := List.mem_filterMap.1 hi
  have hm : inner ∈ script.bodies :=
    List.mem_cons_of_mem _ (List.mem_filterMap.2 ⟨element, (allNodes_sublist ho).subset he, hb⟩)
  have hle : outer.position ≤ element.position := by
    have hp := List.mem_map_of_mem (f := (·.position)) he
    rw [Body.allNodes, (Stmt.walks_walked outer.position outer.stmts).positions,
      List.mem_range'_1] at hp
    exact hp.1
  apply sublist_of_position_lt ho hm
  rw [Body.position_of_ofElement? hb]
  omega

end Script

namespace Script

variable {script : Script} {body other : Body} {element : Element}

/-- The statements of a body are those of the script, or the last children of a function. -/
theorem exists_suffix_of_body (hb : body ∈ script.bodies) : body.stmts = script.body ∨
    ∃ piece ∈ script.pieces, body.stmts.map Piece.statement <:+ piece.children := by
  rcases List.mem_cons.1 hb with rfl | hb
  · exact .inl rfl
  · obtain ⟨element, he, ho⟩ := List.mem_filterMap.1 hb
    obtain ⟨piece, hpiece, hn⟩ := exists_piece_of_mem_walk he
    exact .inr ⟨piece, hpiece, Body.suffix_of_ofElement? ho hn⟩

theorem pieces_subset_of_body (hb : body ∈ script.bodies) :
    ∀ stmt ∈ body.stmts, (Piece.statement stmt).pieces ⊆ script.pieces := by
  intro stmt hm part hpart
  rcases exists_suffix_of_body hb with hs | ⟨piece, hpiece, hs⟩
  · exact List.mem_flatMap.2 ⟨_, List.mem_map_of_mem (hs ▸ hm), hpart⟩
  · have hchild := hs.subset (List.mem_map_of_mem hm)
    exact pieces_subset hpiece (Piece.pieces_subset_of_child hchild hpart)

theorem PlainHeads.stmts (hp : script.PlainHeads) (hb : body ∈ script.bodies) :
    ∀ stmt ∈ body.stmts, (Piece.statement stmt).PlainHeads :=
  fun stmt hm part hpart => hp part (pieces_subset_of_body hb stmt hm hpart)

end Script

end FlowLint
