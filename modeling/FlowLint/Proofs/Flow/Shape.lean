import FlowLint.Proofs.Flow.Progress

namespace FlowLint
set_option autoImplicit true

def RawEdge.isBranch : RawEdge → Bool
  | jump _ => false
  | branch .. => true

/-- The shape of a block, and whether its element has to stay alone. -/
inductive RawBlock.Shaped (roles : List (Element × Role)) : Bool → RawBlock Element → Prop
  | empty (target : Vertex) : Shaped roles false (.ofEdge (.jump (some target)))
  | close {edge : RawEdge} (hr : (element, role) ∈ roles) (hc : role.Closes edge) :
      Shaped roles false ⟨[element], edge⟩
  | guard {edge : RawEdge} (hr : (element, role) ∈ roles) (hs : role.standsAlone = true)
      (hb : edge.isBranch = role.decides) : Shaped roles true ⟨[element], edge⟩
  | plain (hr : (element, .plain) ∈ roles) (h : Shaped roles false block) :
      Shaped roles false (block.prepend element)

/-- What the last element of a block does with its role, and what stands in front of it. -/
structure RawBlock.Ends (roles : List (Element × Role)) (block : RawBlock Element) (last : Element)
    (role : Role) : Prop where
  mem : (last, role) ∈ roles
  branch : block.edge.isBranch = role.decides
  leave : role = .leave → block.edge = .jump (some .exit)
  alone : role.standsAlone = true → block.elements = [last]
  front : ∀ element ∈ block.elements.dropLast, (element, .plain) ∈ roles

variable {roles : List (Element × Role)} {draft later : Draft}

theorem Role.Guards.standsAlone {role : Role} (h : role.Guards edge) : role.standsAlone = true := by
  cases h <;> rfl

theorem Role.Guards.isBranch {role : Role} (h : role.Guards edge) :
    edge.isBranch = role.decides := by
  cases h <;> rfl

theorem Role.Closes.wired {role : Role} (h : role.Closes edge) : edge.Wired := by
  cases h <;> rfl

theorem Role.Closes.isBranch {role : Role} (h : role.Closes edge) :
    edge.isBranch = role.decides := by
  cases h <;> rfl

theorem Role.Closes.standsAlone {role : Role} (h : role.Closes edge) :
    role.standsAlone = false := by
  cases h <;> rfl

namespace RawBlock

variable {block : RawBlock Element} {last : Element} {alone : Bool}

theorem isBranch_enterLoop (block : RawBlock Element) (body : Vertex) :
    (block.enterLoop body).edge.isBranch = block.edge.isBranch := by
  obtain ⟨elements, edge⟩ := block
  rcases edge with ⟨_ | _⟩ | ⟨_ | _, _⟩ <;> rfl

theorem enterLoop_prepend (block : RawBlock Element) (element : Element) (body : Vertex) :
    (block.prepend element).enterLoop body = (block.enterLoop body).prepend element := by
  obtain ⟨elements, edge⟩ := block
  rcases edge with ⟨_ | _⟩ | ⟨_ | _, _⟩ <;> rfl

theorem Shaped.enterLoop (h : Shaped roles alone block) (body : Vertex) :
    Shaped roles alone (block.enterLoop body) := by
  induction h with
  | empty target => exact .empty target
  | close hr hc =>
    rw [enterLoop_of_wired hc.wired]
    exact .close hr hc
  | @guard element role edge hr hs hb =>
    have he := elements_enterLoop ⟨[element], edge⟩ body
    have hb' := isBranch_enterLoop ⟨[element], edge⟩ body
    generalize RawBlock.enterLoop body ⟨[element], edge⟩ = entered at he hb'
    obtain ⟨elements, edge'⟩ := entered
    obtain rfl : elements = [element] := he
    exact .guard hr hs (hb'.trans hb)
  | plain hr _ ih =>
    rw [enterLoop_prepend]
    exact .plain hr ih

theorem Shaped.isBranch_of_nil (h : Shaped roles alone block) (he : block.elements = []) :
    block.edge.isBranch = false := by
  cases h with
  | empty => rfl
  | close | guard | plain => cases he

theorem Shaped.ends (h : Shaped roles alone block) (hl : block.elements.getLast? = some last) :
    ∃ role, block.Ends roles last role ∧ role.standsAlone = alone := by
  induction h with
  | empty target => cases hl
  | @close element role edge hr hc =>
    obtain rfl : element = last := Option.some.inj hl
    have hleave : role = .leave → edge = .jump (some .exit) := by
      rintro rfl
      cases hc
      rfl
    exact ⟨role, ⟨hr, hc.isBranch, hleave, fun _ => rfl, List.forall_mem_nil _⟩, hc.standsAlone⟩
  | @guard element role edge hr hs hb =>
    obtain rfl : element = last := Option.some.inj hl
    have hleave : role = .leave → edge = .jump (some .exit) := by
      rintro rfl
      cases hs
    exact ⟨role, ⟨hr, hb, hleave, fun _ => rfl, List.forall_mem_nil _⟩, hs⟩
  | @plain element block hr hshaped ih =>
    cases he : block.elements with
    | nil =>
      rw [prepend, he] at hl
      obtain rfl : element = last := Option.some.inj hl
      have hfront : ∀ other ∈ (block.prepend element).elements.dropLast,
          (other, Role.plain) ∈ roles := by
        simp [prepend, he]
      refine ⟨.plain, ⟨hr, hshaped.isBranch_of_nil he, ?_, ?_, hfront⟩, rfl⟩
      · intro hleave
        cases hleave
      · intro halone
        cases halone
    | cons second elements =>
      rw [prepend, he, List.getLast?_cons_cons, ← he] at hl
      obtain ⟨role, hends, hs⟩ := ih hl
      have hfront : ∀ other ∈ (block.prepend element).elements.dropLast,
          (other, Role.plain) ∈ roles := by
        rw [prepend, he, List.dropLast_cons_cons, ← he]
        exact List.forall_mem_cons.2 ⟨hr, hends.front⟩
      refine ⟨role, ⟨hends.mem, hends.branch, hends.leave, fun ha => ?_, hfront⟩, hs⟩
      rw [hs] at ha
      cases ha

end RawBlock

namespace Draft

/-- Every block of a draft has a shape, and the current one is open. -/
structure Shaped (roles : List (Element × Role)) (draft : Draft) : Prop where
  block : ∀ (index : Nat) (block : RawBlock Element), draft.blocks[index]? = some block →
    ∃ alone, RawBlock.Shaped roles alone block
  current : ∃ block, draft.blocks[draft.current]? = some block ∧ RawBlock.Shaped roles false block

theorem Shaped.prepend (h : draft.Shaped roles) (hr : (element, .plain) ∈ roles) :
    (draft.prepend element).Shaped roles := by
  obtain ⟨block, hb, hshaped⟩ := h.current
  constructor
  · apply of_getElem?_modify fun index block hb _ => h.block index block hb
    intro block' hb'
    rw [hb, Option.some.injEq] at hb'
    subst hb'
    exact ⟨false, .plain hr hshaped⟩
  · exact ⟨block.prepend element, by simp [Draft.prepend, hb], .plain hr hshaped⟩

/-- A new block may have any shape; it has to be open to become the current one. -/
theorem Shaped.concat {added : RawBlock Element} (h : draft.Shaped roles)
    (ha : RawBlock.Shaped roles alone added) :
    ∀ (index : Nat) (block : RawBlock Element), (draft.blocks ++ [added])[index]? = some block →
      ∃ alone, RawBlock.Shaped roles alone block :=
  of_getElem?_concat h.block ⟨alone, ha⟩

theorem Shaped.enter (h : draft.Shaped roles) (target : Vertex) :
    (draft.enter target).Shaped roles :=
  ⟨h.concat (.empty target), .ofEdge (.jump (some target)), by simp [Draft.enter, enterBlock],
    .empty target⟩

theorem Shaped.close (h : draft.Shaped roles) (hr : (element, role) ∈ roles)
    (hc : role.Closes edge) : ((draft.enterBlock edge).prepend element).Shaped roles := by
  rw [enterBlock_prepend]
  exact ⟨h.concat (.close hr hc), ⟨[element], edge⟩, by simp, .close hr hc⟩

theorem Shaped.addGuard (h : draft.Shaped roles) (hr : (element, role) ∈ roles)
    (hs : role.standsAlone = true) (hb : edge.isBranch = role.decides) :
    (draft.addGuard edge element).Shaped roles := by
  obtain ⟨block, hblock, hshaped⟩ := h.current
  refine ⟨h.concat (.guard hr hs hb), block, ?_, hshaped⟩
  rw [current_addGuard, getElem?_addGuard_of_lt _ _ (List.getElem?_eq_some_iff.1 hblock).1, hblock]

theorem Shaped.wire (h : draft.Shaped roles) (guard : Nat) : (draft.wire guard).Shaped roles := by
  obtain ⟨block, hb, hshaped⟩ := h.current
  constructor
  · apply of_getElem?_modify fun index block hb _ => h.block index block hb
    intro block hb
    obtain ⟨alone, hshaped⟩ := h.block guard block hb
    exact ⟨alone, hshaped.enterLoop _⟩
  · simp only [Draft.wire, List.getElem?_modify, hb, Option.map_eq_map, Option.map_some]
    refine ⟨_, rfl, ?_⟩
    split
    · exact hshaped.enterLoop _
    · exact hshaped

theorem Progresses.shaped (h : draft.Progresses roles later) (hd : draft.Shaped roles) :
    later.Shaped roles := by
  induction h with
  | refl => exact hd
  | prepend hr _ ih => exact (ih hd).prepend hr
  | enter _ _ ih => exact (ih hd).enter _
  | close hr hc _ _ ih => exact (ih hd).close hr hc
  | choose hr _ _ _ ih => exact (ih hd).addGuard hr rfl rfl
  | loop hr hg _ _ _ ih ih' => exact (ih' ((ih hd).addGuard hr hg.standsAlone hg.isBranch)).wire _

theorem initial_shaped : initial.Shaped roles := by
  refine ⟨fun index block hb => ?_, _, rfl, .empty _⟩
  obtain rfl : block = .ofEdge (.jump (some .exit)) := by
    have hm := List.mem_of_getElem? hb
    simpa [initial] using hm
  exact ⟨false, .empty _⟩

end Draft

structure BasicBlock.Ends (roles : List (Element × Role)) (block : BasicBlock Element)
    (last : Element) (role : Role) : Prop where
  getLast? : block.elements.getLast? = some last
  mem : (last, role) ∈ roles
  branch : block.edge.isBranch = role.decides
  leave : role = .leave → block.edge = .always .exit
  alone : role.standsAlone = true → block.elements = [last]
  front : ∀ element ∈ block.elements.dropLast, (element, .plain) ∈ roles

theorem Edge.isBranch_toRaw (edge : Edge) : edge.toRaw.isBranch = edge.isBranch := by
  cases edge <;> rfl

theorem RawEdge.Redirects.isBranch {edge edge' : RawEdge} (h : edge.Redirects stands edge') :
    edge'.isBranch = edge.isBranch := by
  cases h <;> rfl

/-- A finished block ends as it did under construction. -/
theorem RawBlock.Ends.finished {source : RawBlock Element} {block : BasicBlock Element}
    (h : source.Ends roles last role) (hl : block.elements.getLast? = some last)
    (he : source.elements = block.elements)
    (hr : source.edge.Redirects Vertex.KeepsExit block.edge.toRaw) :
    block.Ends roles last role := by
  refine ⟨hl, h.mem, ?_, fun hleave => ?_, he ▸ h.alone, he ▸ h.front⟩
  · rw [← Edge.isBranch_toRaw, hr.isBranch, h.branch]
  · rw [h.leave hleave] at hr
    obtain ⟨elements, target | ⟨onTrue, onFalse⟩⟩ := block
    · cases hr with
      | jump ht => rw [ht rfl]
    · cases hr

namespace BasicBlock.Ends

variable {body : Body} {block : BasicBlock Element} {element last : Element} {role role' : Role}

/-- An element of a block is its last one, or goes on to the next. -/
theorem eq_last_or_plain (h : block.Ends roles last role) (hm : element ∈ block.elements) :
    element = last ∨ element ∈ block.elements.dropLast ∧ (element, .plain) ∈ roles := by
  rw [← List.dropLast_append_getLast? last h.getLast?] at hm
  rcases List.mem_append.1 hm with hm | hm
  · exact .inr ⟨hm, h.front element hm⟩
  · exact .inl (List.mem_singleton.1 hm)

theorem eq_last (h : block.Ends body.roles last role) (hm : element ∈ block.elements)
    (hr : (element, role') ∈ body.roles) (hne : role' ≠ .plain) :
    element = last ∧ role' = role := by
  rcases h.eq_last_or_plain hm with rfl | ⟨-, hplain⟩
  · exact ⟨rfl, Body.role_unique hr h.mem⟩
  · exact (hne (Body.role_unique hr hplain)).elim

theorem not_mem_dropLast (h : block.Ends body.roles last role)
    (hr : (element, role') ∈ body.roles) (hne : role' ≠ .plain) :
    element ∉ block.elements.dropLast :=
  fun hm => hne (Body.role_unique hr (h.front element hm))

end BasicBlock.Ends

namespace Body

variable {body : Body} {graph : Graph Element} {block : BasicBlock Element}

theorem exists_ends (h : body.graph options = .ok graph) (hm : block ∈ graph.blocks) :
    ∃ last role, block.Ends body.roles last role := by
  obtain ⟨draft, spliced, place, place', hprogress, hspliced, hfrozen⟩ := exists_progress h
  obtain ⟨source, hs, he, hr⟩ := RawGraph.exists_source hspliced hfrozen hm
  obtain ⟨index, hindex⟩ := List.mem_iff_getElem?.1 hs
  obtain ⟨alone, hshaped⟩ := (hprogress.shaped Draft.initial_shaped).block index source hindex
  have hl := List.getLast?_eq_some_getLast (elements_ne_nil h block hm)
  obtain ⟨role, hends, -⟩ := hshaped.ends ((congrArg List.getLast? he).trans hl)
  exact ⟨_, role, hends.finished hl he hr⟩

/-- A jump that decides nothing stands last in its block, and only one way leads out of it. -/
theorem jump_stands_last (h : body.graph options = .ok graph) (hm : block ∈ graph.blocks)
    (he : element ∈ block.elements) (hjump : element.isJump = true)
    (hc : element ∉ body.conditions) :
    block.elements.getLast? = some element ∧ element ∉ block.elements.dropLast ∧
      ∃ target, block.edge = .always target ∧ (element.isReturn = true → target = .exit) := by
  obtain ⟨last, role, hends⟩ := exists_ends h hm
  have hgraph : element ∈ graph.elements := List.mem_flatMap.2 ⟨block, hm, he⟩
  obtain ⟨role', hr⟩ := exists_role ((elements_perm h).subset hgraph)
  have hdecides : role'.decides = false := by
    rw [← Bool.not_eq_true]
    exact fun hd => hc (mem_conditions.2 ⟨role', hr, hd⟩)
  have hrole := role_of_isJump hr hjump hdecides
  have hne : role' ≠ .plain := by
    rcases hrole with ⟨rfl, -⟩ | rfl <;> nofun
  obtain ⟨rfl, rfl⟩ := hends.eq_last he hr hne
  refine ⟨hends.getLast?, hends.not_mem_dropLast hr hne, ?_⟩
  rcases hrole with ⟨-, hreturn⟩ | hleave
  · cases hedge : block.edge with
    | always target => exact ⟨target, rfl, by simp [hreturn]⟩
    | branch onTrue onFalse =>
      have hbranch := hends.branch
      rw [hedge, hdecides] at hbranch
      cases hbranch
  · exact ⟨.exit, hends.leave hleave, fun _ => rfl⟩

/-- The edge of a block is a branch just when its last element decides; nothing in front of that
does. -/
theorem branch_iff_last_decides (h : body.graph options = .ok graph) (hm : block ∈ graph.blocks) :
    ∃ last, block.elements.getLast? = some last ∧
      (block.edge.isBranch = true ↔ last ∈ body.conditions) ∧
      (block.edge.isBranch = true → block.condition? = some last) ∧
      ∀ element ∈ block.elements.dropLast, element ∉ body.conditions := by
  obtain ⟨last, role, hends⟩ := exists_ends h hm
  refine ⟨last, hends.getLast?, ?_, fun hb => ?_, fun element he hc => ?_⟩
  · rw [hends.branch, mem_conditions]
    constructor
    · exact fun hd => ⟨role, hends.mem, hd⟩
    · rintro ⟨role', hr, hd⟩
      rwa [role_unique hends.mem hr]
  · rw [BasicBlock.condition?, if_pos hb, hends.getLast?]
  · obtain ⟨role', hr, hd⟩ := mem_conditions.1 hc
    exact hends.not_mem_dropLast hr (by rintro rfl; cases hd) he

/-- A guard and a case test have a block, and it holds nothing else. -/
theorem guard_stands_alone (h : body.graph options = .ok graph) (hg : element ∈ body.guards) :
    (∃ block ∈ graph.blocks, element ∈ block.elements) ∧
      ∀ block ∈ graph.blocks, element ∈ block.elements → block.elements = [element] := by
  obtain ⟨role, hr, hs⟩ := mem_guards.1 hg
  constructor
  · exact List.mem_flatMap.1 ((elements_perm h).mem_iff.2 (mem_evaluated_of_role hr))
  · intro block hm he
    obtain ⟨last, role', hends⟩ := exists_ends h hm
    obtain ⟨rfl, rfl⟩ := hends.eq_last he hr (by rintro rfl; cases hs)
    exact hends.alone hs

/-- The shape of the blocks of a graph. A jump stands last in its block, and only one way leads out
of it. The edge of a block is a branch exactly when its last element decides, and nothing in front
of that does. Guards and case tests have blocks of their own. A jump that is itself the left side of
a loop over a subject is left out, and no loop that is read from a source has one there. -/
theorem graph_shape (h : body.graph options = .ok graph) :
    (∀ block ∈ graph.blocks, ∀ element ∈ block.elements, element.isJump = true →
      element ∉ body.conditions → block.elements.getLast? = some element ∧
        element ∉ block.elements.dropLast ∧
        ∃ target, block.edge = .always target ∧ (element.isReturn = true → target = .exit)) ∧
    (∀ block ∈ graph.blocks, ∃ last, block.elements.getLast? = some last ∧
      (block.edge.isBranch = true ↔ last ∈ body.conditions) ∧
      (block.edge.isBranch = true → block.condition? = some last) ∧
      ∀ element ∈ block.elements.dropLast, element ∉ body.conditions) ∧
    (∀ guard ∈ body.guards, (∃ block ∈ graph.blocks, guard ∈ block.elements) ∧
      ∀ block ∈ graph.blocks, guard ∈ block.elements → block.elements = [guard]) ∧
    ((∀ stmt ∈ body.stmts, (Piece.statement stmt).PlainHeads) →
      ∀ element ∈ body.conditions, element.isJump = false) := by
  refine ⟨?jumps, ?branches, ?guards, isJump_of_mem_conditions⟩
  case jumps => exact fun block hm element he => jump_stands_last h hm he
  case branches => exact fun block hm => branch_iff_last_decides h hm
  case guards => exact fun guard hg => guard_stands_alone h hg

/-- A loop over a subject that may be left early, and a `switch` that returns:
`for (x of y) { if (a) break; b; } switch (c) { case d: return; }` -/
def leftEarly : Body :=
  ⟨.script, ⟨0, 64⟩, 0, [
    .forEach ⟨0, 33⟩ .items (.expression ⟨5, 6⟩ (.name ⟨5, 6⟩ "x")) (.name ⟨10, 11⟩ "y")
      (.block ⟨13, 33⟩ [
        .ifStmt ⟨15, 28⟩ (.name ⟨19, 20⟩ "a") (.jump ⟨22, 28⟩ .break none) none,
        .expression ⟨29, 31⟩ (.name ⟨29, 30⟩ "b")]),
    .switchStmt ⟨34, 64⟩ (.name ⟨42, 43⟩ "c")
      [⟨⟨47, 62⟩, some (.name ⟨52, 53⟩ "d"), [.returnStmt ⟨55, 62⟩ none]⟩]]⟩

/-- The `return` in its `switch`. -/
def leftEarlyReturn : Element :=
  ⟨13, .statement (.returnStmt ⟨55, 62⟩ none)⟩

theorem graph_shape_leftEarly :
    ∃ graph, leftEarly.graph {} = .ok graph ∧
      (∃ block ∈ graph.blocks, block.elements.getLast? = some leftEarlyReturn ∧
        block.edge = .always .exit) ∧
      leftEarly.conditions.map (·.position) = [2, 6, 12] ∧
      leftEarly.guards.map (·.position) = [2, 12] ∧
      (∀ guard ∈ leftEarly.guards, ∃ block ∈ graph.blocks, block.elements = [guard]) ∧
      ∀ element ∈ leftEarly.conditions, element.isJump = false := by
  obtain ⟨graph, hgraph⟩ : ∃ graph, leftEarly.graph {} = .ok graph := exists_graph (by decide)
  have hplain : ∀ stmt ∈ leftEarly.stmts, (Piece.statement stmt).PlainHeads := by
    simp only [leftEarly, Piece.PlainHeads, List.forall_mem_cons, List.not_mem_nil,
      Piece.pieces_eq, Piece.children, Stmt.children, Expr.children, List.map_cons, List.map_nil,
      Option.toList_some, Option.toList_none, List.cons_append, List.nil_append, List.append_nil,
      List.flatMap_cons, List.flatMap_nil, Piece.HasPlainHead, Stmt.isHead, false_implies,
      implies_true, and_self]
  obtain ⟨hjumps, -, hguards, hheads⟩ := graph_shape hgraph
  have hconditions : leftEarly.conditions.map (·.position) = [2, 6, 12] := by decide
  have hdecides : leftEarlyReturn ∉ leftEarly.conditions := by
    intro hm
    have hposition := List.mem_map_of_mem (f := (·.position)) hm
    rw [hconditions] at hposition
    exact absurd hposition (by decide)
  have hevaluated : leftEarlyReturn ∈ leftEarly.evaluated :=
    List.mem_of_getElem? (show leftEarly.evaluated[7]? = some leftEarlyReturn from rfl)
  obtain ⟨block, hb, hm⟩ := List.mem_flatMap.1 ((elements_perm hgraph).mem_iff.2 hevaluated)
  obtain ⟨hlast, -, target, hedge, htarget⟩ := hjumps block hb leftEarlyReturn hm rfl hdecides
  refine ⟨graph, hgraph, ⟨block, hb, hlast, htarget rfl ▸ hedge⟩, hconditions, by decide,
    fun guard hg => ?_, hheads hplain⟩
  obtain ⟨⟨block, hb, hm⟩, halone⟩ := hguards guard hg
  exact ⟨block, hb, halone block hb hm⟩

end Body

end FlowLint
