import FlowLint.Proofs.Flow.Spacing
import FlowLint.Proofs.Flow.Stages

/-!
The elements of a block and the blocks of a graph stand in the order of the source. A body is
drafted from its last statement to its first, so what is put in front of the elements of a block is
in front of them in the source as well.
-/
namespace FlowLint
set_option autoImplicit true

open Piece (statement)

def Element.Sorted (elements : List Element) : Prop :=
  elements.Pairwise fun left right => left.range.stop ≤ right.range.start

namespace Draft

def Sorted (draft : Draft) : Prop :=
  ∀ (index : Nat) (block : RawBlock Element), draft.blocks[index]? = some block →
    Element.Sorted block.elements

/-- Elements that end in front of a bound can be put in front of the current block. -/
structure SortedFrom (bound : Nat) (draft : Draft) : Prop where
  sorted : draft.Sorted
  front : ∀ block, draft.blocks[draft.current]? = some block →
    ∀ element ∈ block.elements, bound ≤ element.range.start

variable {draft : Draft} {bound front : Nat} {element : Element}

theorem SortedFrom.mono (h : draft.SortedFrom bound) (hb : front ≤ bound) :
    draft.SortedFrom front :=
  ⟨h.sorted, fun block hm element he => Nat.le_trans hb (h.front block hm element he)⟩

theorem SortedFrom.prepend (h : draft.SortedFrom bound) (hs : element.range.stop ≤ bound)
    (hf : front ≤ element.range.start) (hb : front ≤ bound) :
    (draft.prepend element).SortedFrom front := by
  have hbefore : ∀ block, draft.blocks[draft.current]? = some block →
      ∀ other ∈ block.elements, element.range.stop ≤ other.range.start :=
    fun block hm other ho => Nat.le_trans hs (h.front block hm other ho)
  constructor
  · apply of_getElem?_modify fun index block hm _ => h.sorted index block hm
    exact fun block hm => List.pairwise_cons.2 ⟨hbefore block hm, h.sorted _ block hm⟩
  · intro block hm
    rw [Draft.prepend, List.getElem?_modify_eq] at hm
    obtain ⟨current, hc, rfl⟩ := Option.map_eq_some_iff.1 hm
    exact List.forall_mem_cons.2 ⟨hf, (h.mono hb).front current hc⟩

theorem Sorted.concat {added : RawBlock Element} (h : draft.Sorted)
    (ha : Element.Sorted added.elements) :
    ∀ (index : Nat) (block : RawBlock Element), (draft.blocks ++ [added])[index]? = some block →
      Element.Sorted block.elements :=
  of_getElem?_concat h ha

theorem Sorted.enterBlock (h : draft.Sorted) (edge : RawEdge) (bound : Nat) :
    (draft.enterBlock edge).SortedFrom bound := by
  refine ⟨h.concat .nil, fun block hm => ?_⟩
  rw [Draft.enterBlock, List.getElem?_concat_length, Option.some.injEq] at hm
  subst hm
  intro first hf
  cases hf

theorem Sorted.enter (h : draft.Sorted) (target : Vertex) (bound : Nat) :
    (draft.enter target).SortedFrom bound :=
  h.enterBlock _ bound

theorem Sorted.enterBlock_prepend (h : draft.Sorted) (edge : RawEdge)
    (hf : front ≤ element.range.start) :
    ((draft.enterBlock edge).prepend element).SortedFrom front :=
  (h.enterBlock edge (max front element.range.stop)).prepend (Nat.le_max_right ..) hf
    (Nat.le_max_left ..)

theorem Sorted.addGuard (h : draft.Sorted) (edge : RawEdge) (head : Element) :
    (draft.addGuard edge head).Sorted :=
  h.concat (List.pairwise_singleton ..)

theorem Sorted.addUpdate (h : draft.Sorted) (guard : Vertex) (update : Option Element) :
    (draft.addUpdate guard update).1.Sorted := by
  cases update with
  | none => exact h
  | some update => exact (h.enterBlock_prepend _ (Nat.zero_le _)).sorted

theorem Sorted.wire (h : draft.Sorted) (guard : Nat) : (draft.wire guard).Sorted := by
  apply of_getElem?_modify fun index block hm _ => h index block hm
  intro block hm
  rw [RawBlock.enterLoop]
  split <;> exact h guard block hm

theorem initial_sorted : initial.Sorted := by
  intro index block hm
  obtain rfl : block = .ofEdge (.jump (some .exit)) := by
    simpa [initial] using List.mem_of_getElem? hm
  exact .nil

end Draft

variable {scope : Scope} {draft later : Draft} {outer : Range}

/-- A statement goes in front of what stands behind it. -/
def Stmt.Sorts (stmt : Stmt) : Prop :=
  ∀ (outer : Range) (scope : Scope) (labels : List String) (pos : Nat) (draft later : Draft),
    stmt.range.Inside outer → outer.start ≤ outer.stop → draft.SortedFrom outer.stop →
    stmt.build scope labels pos draft = .ok later → later.SortedFrom outer.start

theorem Stmt.Sorts.entered {stmt : Stmt} (h : stmt.Sorts) (hd : draft.Sorted)
    (hb : stmt.build scope labels pos (draft.enter target) = .ok later) : later.Sorted :=
  (h ⟨0, stmt.range.stop⟩ _ _ _ _ _ ⟨Nat.zero_le _, Nat.le_refl _⟩ (Nat.zero_le _)
    (hd.enter _ _) hb).sorted

theorem Stmt.builds_sorted {stmts : List Stmt} (h : ∀ stmt ∈ stmts, Stmt.Sorts stmt)
    (hr : Piece.Row outer (stmts.map statement)) (ho : outer.start ≤ outer.stop)
    (hd : draft.SortedFrom outer.stop) (hb : Stmt.builds scope pos stmts draft = .ok later) :
    later.SortedFrom outer.start := by
  induction stmts generalizing outer pos later with
  | nil =>
    cases hb
    exact hd.mono ho
  | cons stmt stmts ih =>
    obtain ⟨hstmt, hstmts⟩ := List.forall_mem_cons.1 h
    obtain ⟨hinside, hrest⟩ := List.forall_mem_cons.1 hr.inside
    obtain ⟨hbefore, hapart⟩ := List.pairwise_cons.1 hr.apart
    rw [Stmt.builds_cons] at hb
    obtain ⟨rest, hx, hs⟩ := bind_eq_ok.1 hb
    -- The other statements are behind the end of this one, and so is the draft they leave.
    let middle := max outer.start stmt.range.stop
    have hrow : Piece.Row ⟨middle, outer.stop⟩ (stmts.map statement) := by
      refine ⟨fun piece hm => ⟨Nat.max_le.2 ⟨(hrest piece hm).1, hbefore piece hm⟩,
        (hrest piece hm).2⟩, hapart⟩
    have hmiddle : middle ≤ outer.stop := Nat.max_le.2 ⟨ho, hinside.2⟩
    have hsorted : rest.SortedFrom middle := ih hstmts hrow hmiddle hd hx
    exact hstmt ⟨outer.start, middle⟩ _ _ _ _ _ ⟨hinside.1, Nat.le_max_right ..⟩
      (Nat.le_max_left ..) hsorted hs

theorem Stmt.Sorts.buildElse {orElse : Option Stmt} (h : ∀ stmt ∈ orElse, Stmt.Sorts stmt)
    (hd : draft.Sorted) (hb : Stmt.buildElse scope pos orElse draft = .ok (later, entry)) :
    later.Sorted := by
  cases orElse with
  | none =>
    cases hb
    exact hd
  | some orElse =>
    obtain ⟨built, hs, he⟩ := bind_eq_ok.1 hb
    cases he
    exact (h orElse rfl).entered hd hs

theorem Stmt.Sorts.buildLoop {body : Stmt} (h : body.Sorts) (hd : draft.Sorted)
    (hb : body.buildLoop scope labels edge head update pos draft = .ok later) : later.Sorted := by
  obtain ⟨built, hs, he⟩ := bind_eq_ok.1 hb
  cases he
  exact (h.entered ((hd.addGuard _ _).addUpdate _ _) hs).wire _

/-- The statements of a part that takes over stand one behind the other, behind its parameter. -/
def Rescue.Ordered (rescue : Rescue) : Prop :=
  ∃ outer, Piece.Row outer (rescue.stmts.map statement) ∧ outer.start ≤ outer.stop ∧
    ∀ parameter ∈ rescue.parameter, parameter.range.stop ≤ outer.start

theorem Block.rescue_ordered {finalizer : Option Block}
    (h : ∀ final ∈ finalizer, (Piece.block final).Ordered) (pos : Nat) :
    ∀ part ∈ finalizer.map (·.rescue pos), Rescue.Ordered part := by
  intro part hp
  obtain ⟨⟨range, body⟩, hm, rfl⟩ := Option.map_eq_some_iff.1 hp
  have hblock := h _ hm
  exact ⟨range, hblock.row, Nat.le_of_lt hblock.nonempty, nofun⟩

theorem Handler.rescue_ordered {handler : Option Handler}
    (h : ∀ clause ∈ handler, (Piece.handler clause).Ordered ∧ (Piece.block clause.body).Ordered)
    (pos : Nat) : ∀ part ∈ handler.map (·.rescue pos), Rescue.Ordered part := by
  intro part hp
  obtain ⟨⟨_, parameter, range, body⟩, hm, rfl⟩ := Option.map_eq_some_iff.1 hp
  obtain ⟨hclause, hblock⟩ := h _ hm
  refine ⟨range, hblock.row, Nat.le_of_lt hblock.nonempty, fun element he => ?_⟩
  obtain ⟨parameter, rfl, rfl⟩ := Option.map_eq_some_iff.1 he
  exact (List.pairwise_cons.1 hclause.row.apart).1 _ (List.mem_singleton_self _)

theorem Rescue.build_sorted {rescue : Option Rescue}
    (h : ∀ part ∈ rescue, ∀ stmt ∈ Rescue.stmts part, Stmt.Sorts stmt)
    (hr : ∀ part ∈ rescue, Rescue.Ordered part) (hd : draft.Sorted)
    (hb : Rescue.build scope exits rescue draft = .ok (later, exits')) : later.Sorted := by
  cases rescue with
  | none =>
    cases hb
    exact hd
  | some rescue =>
    obtain ⟨built, hs, he⟩ := bind_eq_ok.1 hb
    cases he
    obtain ⟨outer, hrow, ho, hparameter⟩ := hr rescue rfl
    have hbuilt := Stmt.builds_sorted (h rescue rfl) hrow ho (hd.enter _ _) hs
    cases hp : rescue.parameter with
    | none => exact hbuilt.sorted
    | some parameter =>
      exact (hbuilt.prepend (hparameter parameter hp) (Nat.zero_le _) (Nat.zero_le _)).sorted

theorem Clause.builds_sorted {clauses : List Clause}
    (h : ∀ clause ∈ clauses, ∀ stmt ∈ Clause.body clause, Stmt.Sorts stmt)
    (ho : ∀ clause ∈ clauses, (Piece.clause clause).Ordered) (hd : draft.Sorted)
    (hb : Clause.builds scope after pos clauses draft = .ok (later, entries)) : later.Sorted := by
  induction clauses generalizing pos later entries with
  | nil =>
    cases hb
    exact hd
  | cons clause clauses ih =>
    obtain ⟨range, test, body⟩ := clause
    obtain ⟨hclause, hclauses⟩ := List.forall_mem_cons.1 h
    obtain ⟨hordered, hothers⟩ := List.forall_mem_cons.1 ho
    rw [Clause.builds_cons] at hb
    obtain ⟨⟨rest, behind⟩, hrest, hx⟩ := bind_eq_ok.1 hb
    obtain ⟨built, hs, he⟩ := bind_eq_ok.1 hx
    cases he
    have hrow : Piece.Row range (body.map statement) :=
      hordered.row.sublist (List.sublist_append_right ..)
    exact (Stmt.builds_sorted hclause hrow (Nat.le_of_lt hordered.nonempty)
      ((ih hclauses hothers hrest).enter _ _) hs).sorted

theorem Clause.addTests_sorted (clauses : List (Clause × Vertex)) (hd : draft.Sorted) :
    (Clause.addTests other pos clauses draft).1.Sorted := by
  induction clauses generalizing pos with
  | nil => exact hd
  | cons clause clauses ih =>
    obtain ⟨⟨range, test, body⟩, entry⟩ := clause
    cases test with
    | none => exact ih
    | some test => exact (Draft.Sorted.enterBlock_prepend ih _ (Nat.zero_le _)).sorted

theorem Upholds.sorts {stmt : Stmt} (h : Upholds Piece.Ordered stmt) : stmt.Sorts := by
  induction h with
  | @expression range value h =>
    intro outer scope labels pos draft later hi ho hd hb
    cases hb
    have hvalue := h.row.inside _ (List.mem_singleton_self _)
    have hinside := Range.Inside.trans hvalue hi
    exact hd.prepend hinside.2 hinside.1 ho
  | declaration | function | debugger =>
    intro outer scope labels pos draft later hi ho hd hb
    cases hb
    exact hd.prepend hi.2 hi.1 ho
  | empty =>
    intro outer scope labels pos draft later hi ho hd hb
    cases hb
    exact hd.mono ho
  | withStmt =>
    intro outer scope labels pos draft later hi ho hd hb
    cases hb
  | returnStmt | throwStmt =>
    intro outer scope labels pos draft later hi ho hd hb
    cases hb
    exact hd.sorted.enterBlock_prepend _ hi.1
  | jump =>
    intro outer scope labels pos draft later hi ho hd hb
    rw [Stmt.build_jump] at hb
    obtain ⟨target, -, he⟩ := bind_eq_ok.1 hb
    cases he
    exact hd.sorted.enterBlock_prepend _ hi.1
  | @ifStmt range test body orElse h hbody helse ihBody ihElse =>
    intro outer scope labels pos draft later hi ho hd hb
    rw [Stmt.build_ifStmt] at hb
    obtain ⟨⟨built, onFalse⟩, hx, hy⟩ := bind_eq_ok.1 hb
    obtain ⟨entered, hs, he⟩ := bind_eq_ok.1 hy
    cases he
    have hbuilt := ihBody.entered (Stmt.Sorts.buildElse ihElse hd.sorted hx) hs
    have htest := h.row.inside _ (List.mem_cons_self ..)
    exact hbuilt.enterBlock_prepend _ (Range.Inside.trans htest hi).1
  | @whileStmt range test body h hbody ih =>
    intro outer scope labels pos draft later hi ho hd hb
    rw [Stmt.build_whileStmt] at hb
    obtain ⟨built, hs, he⟩ := bind_eq_ok.1 hb
    cases he
    exact (ih.buildLoop hd.sorted hs).enter _ _
  | @doStmt range body test h hbody ih =>
    intro outer scope labels pos draft later hi ho hd hb
    rw [Stmt.build_doStmt] at hb
    obtain ⟨built, hs, he⟩ := bind_eq_ok.1 hb
    cases he
    exact (ih.buildLoop hd.sorted hs).enter _ _
  | @forStmt range init test update body h hinit hbody ihInit ih =>
    intro outer scope labels pos draft later hi ho hd hb
    rw [Stmt.build_forStmt] at hb
    obtain ⟨built, hs, hx⟩ := bind_eq_ok.1 hb
    have hentered := (ih.buildLoop hd.sorted hs).enter draft.next
    cases init with
    | none =>
      cases hx
      exact hentered _
    | some init =>
      have hfirst := h.row.inside (statement init) (by simp [Piece.children, Stmt.children])
      exact ihInit init rfl _ _ _ _ _ _ (Range.Inside.trans hfirst hi) ho (hentered _) hx
  | @forEach range kind left right body h hbody ih =>
    intro outer scope labels pos draft later hi ho hd hb
    rw [Stmt.build_forEach] at hb
    obtain ⟨built, hs, he⟩ := bind_eq_ok.1 hb
    cases he
    have hright := h.row.inside (.expression right) (by simp [Piece.children, Stmt.children])
    exact (ih.buildLoop hd.sorted hs).enterBlock_prepend _ (Range.Inside.trans hright hi).1
  | @tryStmt range tried handler finalizer h ht hbody hh hc hf hs ihb ihc ihs =>
    intro outer scope labels pos draft later hi ho hd hb
    obtain ⟨finished, exits, caught, exits', built, hfinal, hcatch, hs', rfl⟩ :=
      Stmt.exists_of_build_tryStmt hb
    have hfinished := Rescue.build_sorted (Block.forall_rescue ihs _) (Block.rescue_ordered hf _)
      hd.sorted hfinal
    have hcaught := Rescue.build_sorted (Handler.forall_rescue ihc _)
      (Handler.rescue_ordered hh _) hfinished hcatch
    obtain ⟨range', body⟩ := tried
    have hbuilt := Stmt.builds_sorted ihb ht.row (Nat.le_of_lt ht.nonempty) (hcaught.enter _ _) hs'
    exact hbuilt.sorted.enter _ _
  | @switchStmt range discriminant clauses h hc hbody ih =>
    intro outer scope labels pos draft later hi ho hd hb
    rw [Stmt.build_switchStmt] at hb
    obtain ⟨⟨built, entries⟩, hs, he⟩ := bind_eq_ok.1 hb
    cases he
    have hbuilt := Clause.builds_sorted ih hc hd.sorted hs
    have hhead := h.row.inside _ (List.mem_cons_self ..)
    exact (Clause.addTests_sorted _ hbuilt).enterBlock_prepend _ (Range.Inside.trans hhead hi).1
  | @block range stmts h hbody ih =>
    intro outer scope labels pos draft later hi ho hd hb
    rw [Stmt.build_block] at hb
    exact Stmt.builds_sorted ih (h.row.widen hi.1 hi.2) ho hd hb
  | @labeled range label body h hbody ih =>
    intro outer scope labels pos draft later hi ho hd hb
    have hinner := h.row.inside (statement body) (by simp [Piece.children, Stmt.children])
    have hinside := Range.Inside.trans hinner hi
    rw [Stmt.build_labeled] at hb
    split at hb
    · exact ih _ _ _ _ _ _ hinside ho hd hb
    · exact ih _ _ _ _ _ _ hinside ho (hd.sorted.enter _ _) hb

variable {body : Body} {graph : Graph Element}

theorem Body.InOrder.sorted (h : body.InOrder)
    (hb : RawGraph.ofBody options body.position body.stmts = .ok raw) :
    ∀ block ∈ raw.blocks, Element.Sorted block.elements := by
  obtain ⟨draft, hd, he⟩ := bind_eq_ok.1 hb
  cases he
  obtain ⟨outer, hrow⟩ := h.row
  have hwide : Piece.Row ⟨0, outer.stop⟩ (body.stmts.map statement) :=
    hrow.widen (Nat.zero_le _) (Nat.le_refl _)
  have hinitial : Draft.initial.SortedFrom outer.stop := by
    refine ⟨Draft.initial_sorted, fun block hm => ?_⟩
    obtain rfl : RawBlock.ofEdge (.jump (some .exit)) = block := Option.some.inj hm
    exact nofun
  have hsorted := Stmt.builds_sorted (fun stmt hm => (h.upholds stmt hm).sorts) hwide
    (Nat.zero_le _) hinitial hd
  intro block hm
  obtain ⟨index, hlt, rfl⟩ := List.mem_iff_getElem.1 hm
  exact hsorted.sorted index _ (List.getElem?_eq_getElem hlt)

/-- What a graph evaluates is spread over the statements of its body. -/
theorem Body.InOrder.spread_graph (h : body.InOrder) (hg : body.graph options = .ok graph) :
    Element.Spread (body.stmts.map statement) graph.elements := by
  have hfills : Element.Fills (body.stmts.map statement) body.evaluated := fun _ => h.spread
  exact hfills.perm (Body.elements_perm hg).symm h.lined

/-- Elements at a distance from one another begin at different places. -/
theorem Element.Spaced.start_ne {row : List Piece} {elements : List Element} {left right : Element}
    (h : left.Spaced right) (hs : Element.Spread row elements) (hl : left ∈ elements)
    (hr : right ∈ elements) : left.range.start ≠ right.range.start := by
  have hleft := hs.nonempty left hl
  have hright := hs.nonempty right hr
  rcases h with (hapart | hapart) | hheld | hheld
  · omega
  · omega
  · exact Nat.ne_of_lt (hs.held left hl right hheld).2.1
  · exact Nat.ne_of_gt (hs.held right hr left hheld).2.1

def BasicBlock.Before (left right : BasicBlock Element) : Prop :=
  ∀ first ∈ left.elements.head?, ∀ other ∈ right.elements.head?,
    first.range.start < other.range.start

theorem RawGraph.FrozenTo.start_le {raw : RawGraph Element} (h : raw.FrozenTo graph place) :
    graph.blocks.Pairwise fun left right =>
      ∀ first ∈ left.elements.head?, ∀ other ∈ right.elements.head?,
        first.range.start ≤ other.range.start := by
  rw [List.pairwise_iff_getElem]
  intro i j hi hj hij first hf other ho
  obtain ⟨k, source, edge, hk, rfl, -, hblock⟩ := h.exists_place hi
  obtain ⟨l, source', edge', hl, rfl, -, hblock'⟩ := h.exists_place hj
  rw [List.getElem?_eq_getElem hi, Option.some.injEq] at hblock
  rw [List.getElem?_eq_getElem hj, Option.some.injEq] at hblock'
  rw [hblock] at hf
  rw [hblock'] at ho
  have hstart : source.start? = some first.range.start := by
    rw [RawBlock.start?, show source.elements.head? = some first from hf]
    rfl
  have hstart' : source'.start? = some other.range.start := by
    rw [RawBlock.start?, show source'.elements.head? = some other from ho]
    rfl
  have hbefore := (h.place_lt_iff k l source source' _ _ hk hl hstart hstart').1 hij
  omega

theorem Body.InOrder.blocks_before (h : body.InOrder) (hg : body.graph options = .ok graph) :
    graph.blocks.Pairwise BasicBlock.Before := by
  obtain ⟨raw, spliced, place, place', -, -, hfrozen⟩ := exists_stages hg
  have hspread := h.spread_graph hg
  obtain ⟨-, hspaced⟩ := List.pairwise_flatMap.1 hspread.spaced
  refine (hfrozen.start_le.and hspaced).imp_of_mem ?_
  intro left right hl hr ⟨hle, hapart⟩ first hf other ho
  have hfirst : first ∈ left.elements := List.mem_of_mem_head? hf
  have hother : other ∈ right.elements := List.mem_of_mem_head? ho
  have hne := (hapart first hfirst other hother).start_ne hspread
    (List.mem_flatMap.2 ⟨left, hl, hfirst⟩) (List.mem_flatMap.2 ⟨right, hr, hother⟩)
  exact Nat.lt_of_le_of_ne (hle first hf other ho) hne

namespace Element.Sorted

variable {elements : List Element}

theorem head_le (h : Sorted elements)
    (hr : ∀ element ∈ elements, element.range.start < element.range.stop)
    (hf : first ∈ elements.head?) :
    ∀ element ∈ elements, first.range.start ≤ element.range.start := by
  obtain ⟨rest, rfl⟩ := List.head?_eq_some_iff.1 hf
  have hne := hr first (List.mem_cons_self ..)
  rw [List.forall_mem_cons]
  refine ⟨Nat.le_refl _, fun element hm => ?_⟩
  have hapart := (List.pairwise_cons.1 h).1 element hm
  omega

theorem le_getLast (h : Sorted elements)
    (hr : ∀ element ∈ elements, element.range.start < element.range.stop)
    (hl : last ∈ elements.getLast?) :
    ∀ element ∈ elements, element.range.stop ≤ last.range.stop := by
  obtain ⟨rest, rfl⟩ := List.getLast?_eq_some_iff.1 hl
  have hne := hr last (by simp)
  rw [List.forall_mem_append]
  refine ⟨fun element hm => ?_, by simp⟩
  have hapart := (List.pairwise_append.1 h).2.2 element hm last (by simp)
  omega

end Element.Sorted

/-- The range of a block whose elements are sorted reaches around them. -/
theorem BasicBlock.range_of_sorted {block : BasicBlock Element} (hn : block.elements ≠ [])
    (hs : Element.Sorted block.elements)
    (hr : ∀ element ∈ block.elements, element.range.start < element.range.stop) :
    block.range.start < block.range.stop ∧
      ∀ element ∈ block.elements, element.range.Inside block.range := by
  have hfirst := List.head?_eq_some_head hn
  have hlast := List.getLast?_eq_some_getLast hn
  have hrange : block.range =
      ⟨(block.elements.head hn).range.start, (block.elements.getLast hn).range.stop⟩ := by
    rw [range, hfirst, hlast]
    rfl
  have hleft := hs.head_le hr hfirst
  have hright := hs.le_getLast hr hlast
  rw [hrange]
  refine ⟨?_, fun element hm => ⟨hleft element hm, hright element hm⟩⟩
  exact Nat.lt_of_lt_of_le (hr _ (List.head_mem hn)) (hright _ (List.head_mem hn))

namespace Script

/-- Source order in the graphs of a script. No element is empty. Those of one block stand one behind
the other, inside the range of the block. Each block begins in front of the blocks behind it. Any
two elements keep apart, unless one of them is a `for` that stands for its missing test and the
other is evaluated in it; such a `for` has all that is evaluated in it inside its range. -/
theorem graph_sourceOrder {script : Script} {body : Body} {graph : Graph Element}
    (h : Script.parse source = .ok script) (hb : body ∈ script.bodies)
    (hg : body.graph options = .ok graph) :
    (∀ element ∈ graph.elements, element.range.start < element.range.stop) ∧
    (∀ block ∈ graph.blocks, block.elements ≠ [] ∧ Element.Sorted block.elements ∧
      block.range.start < block.range.stop ∧
      ∀ element ∈ block.elements, element.range.Inside block.range) ∧
    graph.blocks.Pairwise BasicBlock.Before ∧
    graph.elements.Pairwise Element.Spaced ∧
    ∀ element ∈ graph.elements, ∀ inner ∈ element.held,
      inner ∈ graph.elements ∧ inner.range.Inside element.range := by
  have horder := inOrder_of_parse h hb
  have hspread := horder.spread_graph hg
  refine ⟨hspread.nonempty, fun block hm => ?_, horder.blocks_before hg, hspread.spaced,
    fun element he inner hi => ?_⟩
  · obtain ⟨raw, spliced, place, place', hraw, hspliced, hfrozen⟩ := Body.exists_stages hg
    obtain ⟨source, hsource, helements, -⟩ := RawGraph.exists_source hspliced hfrozen hm
    have hn := Body.elements_ne_nil hg block hm
    have hsorted : Element.Sorted block.elements := helements ▸ horder.sorted hraw source hsource
    exact ⟨hn, hsorted, BasicBlock.range_of_sorted hn hsorted
      fun element he => hspread.nonempty element (List.mem_flatMap.2 ⟨block, hm, he⟩)⟩
  · obtain ⟨hmem, hstart, hstop⟩ := hspread.held element he inner hi
    exact ⟨hmem, Nat.le_of_lt hstart, hstop⟩

/-- A loop without a test that has an initialiser and an update, with another one in it. -/
def innerEndless : String :=
  "a; for (b; ; c) \x7b d; for (;;) if (e) break; \x7d f"

theorem graph_sourceOrder_innerEndless :
    ∃ script graph, Script.parse innerEndless = .ok script ∧
      Body.ofScript script ∈ script.bodies ∧ (Body.ofScript script).graph {} = .ok graph ∧
      graph.blocks.Pairwise BasicBlock.Before ∧ graph.elements.Pairwise Element.Spaced ∧
      ∃ element ∈ graph.elements, element.range = ⟨3, 45⟩ ∧ element.held.map (·.range) =
        [⟨8, 9⟩, ⟨18, 19⟩, ⟨21, 43⟩, ⟨34, 35⟩, ⟨37, 43⟩, ⟨13, 14⟩] := by
  have hfacts : (Script.parse innerEndless).toOption.map (fun script =>
      let body := Body.ofScript script
      ((body.offences {}).length, body.evaluated[1]?.map
        fun element => (element.range, element.held.map (·.range)))) =
      some (0, some (⟨3, 45⟩, [⟨8, 9⟩, ⟨18, 19⟩, ⟨21, 43⟩, ⟨34, 35⟩, ⟨37, 43⟩, ⟨13, 14⟩])) := by
    decide +kernel
  obtain ⟨script, hs, hfacts⟩ := exists_ok_of_map hfacts
  obtain ⟨hoffences, hloop⟩ := Prod.mk.inj hfacts
  obtain ⟨graph, hg⟩ : ∃ graph, (Body.ofScript script).graph {} = .ok graph :=
    Body.exists_graph (List.eq_nil_of_length_eq_zero hoffences)
  have hb : Body.ofScript script ∈ script.bodies := List.mem_cons_self ..
  obtain ⟨-, -, hbefore, hspaced, -⟩ := graph_sourceOrder hs hb hg
  refine ⟨script, graph, hs, hb, hg, hbefore, hspaced, ?_⟩
  obtain ⟨element, he, heq⟩ := Option.map_eq_some_iff.1 hloop
  obtain ⟨hrange, hheld⟩ := Prod.mk.inj heq
  exact ⟨element, (Body.elements_perm hg).mem_iff.2 (List.mem_of_getElem? he), hrange, hheld⟩

end Script

end FlowLint
