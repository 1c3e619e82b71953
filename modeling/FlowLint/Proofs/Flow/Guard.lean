import FlowLint.Proofs.Flow.Stages
import FlowLint.Proofs.Tree.Throughout
import FlowLint.Tree.Loop

/-!
Every loop of a body has a block that ends in the element in front of its body. The block is made
for that element, and nothing is ever put behind it.
-/
namespace FlowLint
set_option autoImplicit true

def Element.guard? (element : Element) : Option Element :=
  (Loop.ofElement? element).map (·.guard)

def Event.guards (events : List Event) : List Element :=
  (elements events).filterMap Element.guard?

namespace Event

@[simp] theorem guards_nil : guards [] = [] := rfl

@[simp] theorem guards_expression (pos : Nat) (expr : Expr) (events : List Event) :
    guards (node ⟨pos, .expression expr⟩ :: events) = guards events :=
  rfl

@[simp] theorem guards_handler (range : Range) (events : List Event) :
    guards (handler range :: events) = guards events :=
  rfl

end Event

/-- All nodes that events meet are expressions. -/
def Event.MeetOnlyExpressions (events : List Event) : Prop :=
  ∀ element ∈ elements events, ∃ expr, element.node = .expression expr

namespace Event.MeetOnlyExpressions

theorem nil : MeetOnlyExpressions [] :=
  nofun

theorem node (pos : Nat) (expr : Expr) (h : MeetOnlyExpressions events) :
    MeetOnlyExpressions (.node ⟨pos, .expression expr⟩ :: events) :=
  List.forall_mem_cons.2 ⟨⟨expr, rfl⟩, h⟩

theorem append (h : MeetOnlyExpressions events) (h' : MeetOnlyExpressions events') :
    MeetOnlyExpressions (events ++ events') := by
  rw [MeetOnlyExpressions, elements_append]
  exact List.forall_mem_append.2 ⟨h, h'⟩

theorem guards_eq_nil (h : MeetOnlyExpressions events) : guards events = [] := by
  rw [guards, List.filterMap_eq_nil_iff]
  rintro ⟨position, node⟩ hm
  obtain ⟨expr, rfl⟩ := h _ hm
  rfl

end Event.MeetOnlyExpressions

mutual

theorem Expr.walk_meetOnlyExpressions (pos : Nat) (expr : Expr) :
    Event.MeetOnlyExpressions (expr.walk .shallow pos) := by
  cases expr with
  | name | number | string | boolean | null | function => exact .node _ _ .nil
  | array range elements | sequence range elements =>
    exact .node _ _ (Expr.walks_meetOnlyExpressions _ elements)
  | call range callee arguments | new range callee arguments =>
    exact .node _ _ (.append (callee.walk_meetOnlyExpressions _)
      (Expr.walks_meetOnlyExpressions _ arguments))
  | member range object property => exact .node _ _ (object.walk_meetOnlyExpressions _)
  | subscript range object index =>
    exact .node _ _ (.append (object.walk_meetOnlyExpressions _)
      (index.walk_meetOnlyExpressions _))
  | unary range op operand => exact .node _ _ (operand.walk_meetOnlyExpressions _)
  | update range op fixity target => exact .node _ _ (target.walk_meetOnlyExpressions _)
  | binary range op left right =>
    exact .node _ _ (.append (left.walk_meetOnlyExpressions _)
      (right.walk_meetOnlyExpressions _))
  | assign range op target value =>
    exact .node _ _ (.append (value.walk_meetOnlyExpressions _)
      (target.walk_meetOnlyExpressions _))
  | conditional range test whenTrue whenFalse =>
    exact .node _ _ (.append (.append (test.walk_meetOnlyExpressions _)
      (whenTrue.walk_meetOnlyExpressions _)) (whenFalse.walk_meetOnlyExpressions _))

theorem Expr.walks_meetOnlyExpressions (pos : Nat) (exprs : List Expr) :
    Event.MeetOnlyExpressions (Expr.walks .shallow pos exprs) := by
  cases exprs with
  | nil => exact .nil
  | cons expr exprs =>
    exact .append (expr.walk_meetOnlyExpressions _) (Expr.walks_meetOnlyExpressions _ exprs)

end

theorem Expr.optionWalk_meetOnlyExpressions (pos : Nat) (expr : Option Expr) :
    Event.MeetOnlyExpressions (Expr.optionWalk .shallow pos expr) := by
  cases expr with
  | none => exact .nil
  | some expr => exact expr.walk_meetOnlyExpressions pos

theorem Declarator.walks_meetOnlyExpressions (pos : Nat) (declarators : List Declarator) :
    Event.MeetOnlyExpressions (Declarator.walks .shallow pos declarators) := by
  induction declarators generalizing pos with
  | nil => exact .nil
  | cons declarator declarators ih =>
    obtain ⟨_, _, init⟩ := declarator
    exact .append (Expr.optionWalk_meetOnlyExpressions _ init) (ih _)

@[simp] theorem Expr.guards_walk (pos : Nat) (expr : Expr) :
    Event.guards (expr.walk .shallow pos) = [] :=
  (expr.walk_meetOnlyExpressions pos).guards_eq_nil

@[simp] theorem Declarator.guards_walks (pos : Nat) (declarators : List Declarator) :
    Event.guards (Declarator.walks .shallow pos declarators) = [] :=
  (Declarator.walks_meetOnlyExpressions pos declarators).guards_eq_nil

namespace Draft

def Ends (draft : Draft) (element : Element) : Prop :=
  ∃ block ∈ draft.blocks, block.elements.getLast? = some element

/-- A draft has kept the ends of its blocks, and blocks have been added that end in the given
elements. -/
structure Gains (draft later : Draft) (ends : List Element) : Prop where
  kept : ∀ element, draft.Ends element → later.Ends element
  added : ∀ element ∈ ends, later.Ends element

variable {draft middle later : Draft} {ends ends' : List Element} {element : Element}

namespace Gains

theorem refl (draft : Draft) : draft.Gains draft [] :=
  ⟨fun _ h => h, nofun⟩

theorem trans (h : draft.Gains middle ends) (h' : middle.Gains later ends') :
    draft.Gains later (ends ++ ends') := by
  constructor
  · intro element he
    exact h'.kept element (h.kept element he)
  · rw [List.forall_mem_append]
    exact ⟨fun element hm => h'.kept element (h.added element hm), h'.added⟩

theorem subset (h : draft.Gains later ends) (hs : ends' ⊆ ends) : draft.Gains later ends' :=
  ⟨h.kept, fun element hm => h.added element (hs hm)⟩

theorem step (h : draft.Gains middle ends)
    (hk : ∀ element, middle.Ends element → later.Ends element) : draft.Gains later ends :=
  ⟨fun element he => hk element (h.kept element he),
    fun element hm => hk element (h.added element hm)⟩

theorem modify (h : draft.Gains later ends) (index : Nat) (f : RawBlock Element → RawBlock Element)
    (hf : ∀ block last, block.elements.getLast? = some last →
      (f block).elements.getLast? = some last) :
    draft.Gains { later with blocks := later.blocks.modify index f } ends := by
  apply h.step
  intro last hlast
  obtain ⟨block, hb, hl⟩ := hlast
  obtain ⟨place, hp⟩ := List.mem_iff_getElem?.1 hb
  have hmodify := List.getElem?_modify f index later.blocks place
  rw [hp, Option.map_eq_map, Option.map_some] at hmodify
  refine ⟨_, List.mem_of_getElem? hmodify, ?_⟩
  by_cases he : index = place
  · rw [if_pos he]
    exact hf block last hl
  · rwa [if_neg he]

theorem prepend (h : draft.Gains later ends) (element : Element) :
    draft.Gains (later.prepend element) ends := by
  apply h.modify
  intro block last hl
  rw [RawBlock.prepend, List.getLast?_cons, hl]
  rfl

theorem enterBlock (h : draft.Gains later ends) (edge : RawEdge) :
    draft.Gains (later.enterBlock edge) ends := by
  apply h.step
  intro last hlast
  obtain ⟨block, hb, hl⟩ := hlast
  exact ⟨block, List.mem_append_left _ hb, hl⟩

theorem enter (h : draft.Gains later ends) (target : Vertex) :
    draft.Gains (later.enter target) ends :=
  h.enterBlock _

theorem wire (h : draft.Gains later ends) (guard : Nat) : draft.Gains (later.wire guard) ends := by
  apply h.modify
  intro block last hl
  rw [RawBlock.elements_enterLoop, hl]

theorem addGuard (h : draft.Gains later ends) (edge : RawEdge) (head : Element) :
    draft.Gains (later.addGuard edge head) (head :: ends) := by
  have hkept : draft.Gains (later.addGuard edge head) ends := by
    apply h.step
    intro last hlast
    obtain ⟨block, hb, hl⟩ := hlast
    exact ⟨block, List.mem_append_left _ hb, hl⟩
  have hhead : (later.addGuard edge head).Ends head :=
    ⟨⟨[head], edge⟩, List.mem_append_right _ (List.mem_singleton_self _), rfl⟩
  exact ⟨hkept.kept, List.forall_mem_cons.2 ⟨hhead, hkept.added⟩⟩

theorem addUpdate (h : draft.Gains later ends) (guard : Vertex) (update : Option Element) :
    draft.Gains (later.addUpdate guard update).1 ends := by
  cases update with
  | none => exact h
  | some update => exact (h.enter guard).prepend update

end Gains

end Draft

variable {draft later : Draft} {stmts : List Stmt}

/-- Adding a statement to a draft adds a block for each of its loops that ends in the guard. -/
def Stmt.Gains (stmt : Stmt) : Prop :=
  ∀ (scope : Scope) (labels : List String) (pos : Nat) (draft later : Draft),
    stmt.build scope labels pos draft = .ok later →
    draft.Gains later (Event.guards (stmt.walk .shallow pos))

theorem Stmt.Gains.buildElse {orElse : Option Stmt} (h : ∀ stmt ∈ orElse, stmt.Gains)
    (hb : Stmt.buildElse scope pos orElse draft = .ok (later, entry)) :
    draft.Gains later (Event.guards (Stmt.optionWalk .shallow pos orElse)) := by
  cases orElse with
  | none =>
    cases hb
    exact .refl _
  | some orElse =>
    obtain ⟨built, hs, he⟩ := bind_eq_ok.1 hb
    cases he
    exact ((Draft.Gains.refl _).enter _).trans (h orElse rfl _ _ _ _ _ hs)

theorem Stmt.Gains.optionBuild {init : Option Stmt} (h : ∀ stmt ∈ init, stmt.Gains)
    (hb : Stmt.optionBuild scope pos init draft = .ok later) :
    draft.Gains later (Event.guards (Stmt.optionWalk .shallow pos init)) := by
  cases init with
  | none =>
    cases hb
    exact .refl _
  | some init => exact h init rfl _ _ _ _ _ hb

theorem Stmt.Gains.buildLoop {body : Stmt} (h : body.Gains)
    (hb : body.buildLoop scope labels edge head update pos draft = .ok later) :
    draft.Gains later (head :: Event.guards (body.walk .shallow pos)) := by
  obtain ⟨built, hs, he⟩ := bind_eq_ok.1 hb
  cases he
  have hguard := ((Draft.Gains.refl draft).addGuard edge head).addUpdate draft.next update
  exact ((hguard.enter _).trans (h _ _ _ _ _ hs)).wire _

def Rescue.guards (rescue : Rescue) : List Element :=
  Event.guards (Stmt.walks .shallow rescue.position rescue.stmts)

namespace Graph

variable {graph : Graph Element} {i j : Nat}

theorem eq_of_position_eq {block block' : BasicBlock Element} {x y : Element}
    (hn : (graph.elements.map (·.position)).Nodup) (hi : graph.blocks[i]? = some block)
    (hj : graph.blocks[j]? = some block') (hx : x ∈ block.elements) (hy : y ∈ block'.elements)
    (he : x.position = y.position) : i = j := by
  rw [elements, List.map_flatMap, List.nodup_flatMap] at hn
  have hp := List.pairwise_iff_getElem.1 hn.2
  obtain ⟨hilt, rfl⟩ := List.getElem?_eq_some_iff.1 hi
  obtain ⟨hjlt, rfl⟩ := List.getElem?_eq_some_iff.1 hj
  have hxm := List.mem_map_of_mem (f := (·.position)) hx
  have hym := List.mem_map_of_mem (f := (·.position)) hy
  rcases Nat.lt_trichotomy i j with hlt | heq | hlt
  · exact (hp i j hilt hjlt hlt hxm (he ▸ hym)).elim
  · exact heq
  · exact (hp j i hjlt hilt hlt hym (he ▸ hxm)).elim

end Graph

end FlowLint
