import FlowLint.Proofs.Flow.Census
import FlowLint.Proofs.Flow.Mapped
import FlowLint.Proofs.Tree.Relocated

namespace FlowLint
set_option autoImplicit true

variable {f : Range → Range}

def FlowError.relocate (f : Range → Range) : FlowError → FlowError
  | unsupported kind range => unsupported kind (f range)
  | unresolvedJump kind range => unresolvedJump kind (f range)
  | unresolvedLabel kind label range => unresolvedLabel kind label (f range)
  | continueToNonLoop label range => continueToNonLoop label (f range)
  | graph error => graph error

namespace Draft

def relocate (f : Range → Range) (draft : Draft) : Draft :=
  ⟨draft.blocks.map (RawBlock.map (·.relocate f)), draft.current⟩

variable (draft : Draft)

@[simp] theorem length_relocate : (draft.relocate f).blocks.length = draft.blocks.length :=
  List.length_map _

@[simp] theorem here_relocate : (draft.relocate f).here = draft.here :=
  rfl

@[simp] theorem next_relocate : (draft.relocate f).next = draft.next :=
  congrArg Vertex.block draft.length_relocate

theorem map_modify {items : List α} {g : α → β} {h : α → α} {h' : β → β}
    (he : ∀ a, g (h a) = h' (g a)) (index : Nat) :
    (items.modify index h).map g = (items.map g).modify index h' := by
  apply List.ext_getElem?
  intro i
  rw [List.getElem?_map, List.getElem?_modify, List.getElem?_modify, List.getElem?_map]
  cases items[i]? with
  | none => rfl
  | some a =>
    by_cases hi : index = i
    · simp [hi, he]
    · simp [hi]

@[simp] theorem relocate_prepend (element : Element) :
    (draft.prepend element).relocate f = (draft.relocate f).prepend (element.relocate f) := by
  have hprepend (block : RawBlock Element) : (block.prepend element).map (·.relocate f) =
      (block.map (·.relocate f)).prepend (element.relocate f) :=
    rfl
  exact congrArg (Draft.mk · draft.current) (map_modify hprepend draft.current)

@[simp] theorem relocate_enterBlock (edge : RawEdge) :
    (draft.enterBlock edge).relocate f = (draft.relocate f).enterBlock edge := by
  rw [relocate, enterBlock, List.map_append, enterBlock, length_relocate]
  rfl

@[simp] theorem relocate_enter (target : Vertex) :
    (draft.enter target).relocate f = (draft.relocate f).enter target :=
  draft.relocate_enterBlock _

@[simp] theorem relocate_addGuard (edge : RawEdge) (head : Element) :
    (draft.addGuard edge head).relocate f =
      (draft.relocate f).addGuard edge (head.relocate f) := by
  rw [relocate, addGuard, List.map_append, addGuard]
  rfl

@[simp] theorem relocate_wire (guard : Nat) :
    (draft.wire guard).relocate f = (draft.relocate f).wire guard := by
  have hloop (block : RawBlock Element) : (block.enterLoop draft.here).map (·.relocate f) =
      (block.map (·.relocate f)).enterLoop draft.here := by
    rcases block with ⟨elements, ⟨_ | _⟩ | ⟨_ | _, _⟩⟩ <;> rfl
  exact congrArg (Draft.mk · draft.current) (map_modify hloop guard)

theorem relocate_addUpdate (guard : Vertex) (update : Option Element) :
    (draft.relocate f).addUpdate guard (update.map (·.relocate f)) =
      Prod.map (·.relocate f) id (draft.addUpdate guard update) := by
  cases update with
  | none => rfl
  | some update => simp [addUpdate, ← relocate_enter]

end Draft

/-- Building a draft with a moved part moves what is built without. -/
abbrev Redrafts (f : Range → Range) (x y : Except FlowError Draft) : Prop :=
  Carries (FlowError.relocate f) (Draft.relocate f) x y

/-- A statement that is moved adds to a moved draft what it adds otherwise, moved. -/
def Stmt.Redrafted (f : Range → Range) (stmt : Stmt) : Prop :=
  ∀ scope labels pos draft, Redrafts f (stmt.build scope labels pos draft)
    ((stmt.relocate f).build scope labels pos (draft.relocate f))

abbrev RedraftsWith (f : Range → Range) (x y : Except FlowError (Draft × α)) : Prop :=
  Carries (FlowError.relocate f) (Prod.map (Draft.relocate f) id) x y

theorem Stmt.builds_redrafted {stmts : List Stmt} (h : ∀ stmt ∈ stmts, stmt.Redrafted f) :
    ∀ scope pos draft, Redrafts f (Stmt.builds scope pos stmts draft)
      (Stmt.builds scope pos (Stmt.relocates f stmts) (draft.relocate f)) := by
  induction stmts with
  | nil =>
    intro scope pos draft
    rw [builds_nil, relocates, builds_nil]
    exact .ok draft
  | cons stmt stmts ih =>
    obtain ⟨hstmt, hstmts⟩ := List.forall_mem_cons.1 h
    intro scope pos draft
    rw [builds_cons, relocates, builds_cons, size_relocate]
    exact .bind (ih hstmts _ _ _) fun later => hstmt _ _ _ _

namespace Stmt.Redrafted

theorem buildElse {orElse : Option Stmt} (h : ∀ stmt ∈ orElse, Redrafted f stmt) (scope : Scope)
    (pos : Nat) (draft : Draft) : RedraftsWith f (Stmt.buildElse scope pos orElse draft)
      (Stmt.buildElse scope pos (Stmt.optionRelocate f orElse) (draft.relocate f)) := by
  cases orElse with
  | none =>
    rw [Stmt.optionRelocate]
    exact .ok (draft, draft.here)
  | some stmt =>
    rw [Stmt.buildElse, Stmt.optionRelocate, Stmt.buildElse, Draft.here_relocate,
      ← Draft.relocate_enter]
    exact .bind (h stmt rfl _ _ _ _) fun built => .ok (built, built.here)

theorem optionBuild {stmt : Option Stmt} (h : ∀ some ∈ stmt, Redrafted f some) (scope : Scope)
    (pos : Nat) (draft : Draft) : Redrafts f (Stmt.optionBuild scope pos stmt draft)
      (Stmt.optionBuild scope pos (Stmt.optionRelocate f stmt) (draft.relocate f)) := by
  cases stmt with
  | none =>
    rw [Stmt.optionRelocate]
    exact .ok draft
  | some stmt =>
    rw [Stmt.optionRelocate]
    exact h stmt rfl _ _ _ _

theorem buildLoop {body : Stmt} (h : body.Redrafted f) (scope : Scope) (labels : List String)
    (edge : RawEdge) (head : Element) (update : Option Element) (pos : Nat) (draft : Draft) :
    Redrafts f (body.buildLoop scope labels edge head update pos draft)
      ((body.relocate f).buildLoop scope labels edge (head.relocate f)
        (update.map (·.relocate f)) pos (draft.relocate f)) := by
  simp only [Stmt.buildLoop, ← Draft.relocate_addGuard, Draft.next_relocate,
    Draft.relocate_addUpdate, Draft.here_relocate, Draft.length_relocate, Prod.map_fst,
    Prod.map_snd, id_eq, ← Draft.relocate_enter]
  apply Carries.bind (h _ _ _ _)
  intro built
  rw [← Draft.relocate_wire]
  exact .ok (built.wire draft.blocks.length)

end Stmt.Redrafted

def Rescue.relocate (f : Range → Range) (rescue : Rescue) : Rescue :=
  ⟨rescue.parameter.map (·.relocate f), rescue.position, Stmt.relocates f rescue.stmts⟩

theorem Handler.rescue_relocate (pos : Nat) (handler : Option Handler) :
    (optionRelocate f handler).map (·.rescue pos) =
      (handler.map (·.rescue pos)).map (·.relocate f) := by
  rcases handler with _ | ⟨range, _ | parameter, ⟨_, body⟩⟩ <;>
    simp [optionRelocate, rescue, Rescue.relocate, Block.relocate, Expr.optionRelocate,
      Expr.optionSize, Element.relocate, Node.relocate]

theorem Block.rescue_relocate (pos : Nat) (block : Option Block) :
    (optionRelocate f block).map (·.rescue pos) =
      (block.map (·.rescue pos)).map (·.relocate f) := by
  rcases block with _ | ⟨_, body⟩ <;> simp [optionRelocate, relocate, rescue, Rescue.relocate]

theorem Rescue.build_redrafted {rescue : Option Rescue}
    (h : ∀ part ∈ rescue, ∀ stmt ∈ part.stmts, stmt.Redrafted f) (scope : Scope)
    (exits : Vertex × Vertex) (draft : Draft) :
    RedraftsWith f (Rescue.build scope exits rescue draft)
      (Rescue.build scope exits (rescue.map (·.relocate f)) (draft.relocate f)) := by
  rcases rescue with _ | ⟨parameter, position, stmts⟩
  · exact .ok (draft, exits)
  · have hbuilds := Stmt.builds_redrafted (h _ rfl)
    simp only [Rescue.build, Option.map_some, relocate, ← Draft.relocate_enter]
    apply Carries.bind (hbuilds _ _ _)
    intro built
    cases parameter with
    | none => exact .ok (built, built.here, built.here)
    | some parameter =>
      simp only [Option.map_some, Option.elim_some, ← Draft.relocate_prepend]
      exact .ok (built.prepend parameter, _, _)

namespace Clause

theorem defaultEntry?_relocates (clauses : List Clause) (entries : List Vertex) :
    defaultEntry? (relocates f clauses) entries = defaultEntry? clauses entries := by
  induction clauses generalizing entries with
  | nil => rw [relocates]
  | cons clause clauses ih =>
    obtain ⟨range, test, body⟩ := clause
    cases entries with
    | nil => simp [Clause.defaultEntry?]
    | cons entry entries =>
      have hrest := ih entries
      cases test with
      | none => rfl
      | some test => exact hrest

theorem addTests_relocates (other : Vertex) (pos : Nat) (clauses : List Clause)
    (entries : List Vertex) (draft : Draft) :
    addTests other pos ((relocates f clauses).zip entries) (draft.relocate f) =
      Prod.map (·.relocate f) id (addTests other pos (clauses.zip entries) draft) := by
  induction clauses generalizing entries pos with
  | nil => simp [relocates, addTests]
  | cons clause clauses ih =>
    obtain ⟨range, test, body⟩ := clause
    cases entries with
    | nil => simp [addTests]
    | cons entry entries =>
      cases test with
      | none => simp [relocates, Expr.optionRelocate, addTests, ih]
      | some test =>
        simp only [relocates, Expr.optionRelocate, List.zip_cons_cons, addTests, Expr.size_relocate,
          Stmt.sizes_relocates, ih, Prod.map, id_eq, Draft.relocate_prepend,
          Draft.relocate_enterBlock]
        exact Prod.ext rfl (congrArg Vertex.block (Draft.length_relocate _))

theorem builds_redrafted {clauses : List Clause}
    (h : ∀ clause ∈ clauses, ∀ stmt ∈ clause.body, Stmt.Redrafted f stmt) :
    ∀ scope after pos draft, RedraftsWith f (Clause.builds scope after pos clauses draft)
      (Clause.builds scope after pos (relocates f clauses) (draft.relocate f)) := by
  induction clauses with
  | nil =>
    intro scope after pos draft
    rw [builds_nil, relocates, builds_nil]
    exact .ok (draft, [])
  | cons clause clauses ih =>
    obtain ⟨range, test, body⟩ := clause
    obtain ⟨hbody, hclauses⟩ := List.forall_mem_cons.1 h
    intro scope after pos draft
    simp only [builds_cons, relocates, Expr.optionSize_optionRelocate, Stmt.sizes_relocates]
    apply Carries.bind (ih hclauses _ _ _ _)
    rintro ⟨later, entries⟩
    simp only [Prod.map, ← Draft.relocate_enter]
    apply Carries.bind (Stmt.builds_redrafted hbody _ _ _)
    intro built
    exact .ok (built, built.here :: entries)

end Clause

namespace Scope

variable (scope : Scope) (kind : JumpKind) (range : Range)

theorem breakable?_relocate (label : Option String) :
    Carries (FlowError.relocate f) id (scope.breakable? kind range label)
      (scope.breakable? kind (f range) label) := by
  cases label with
  | none => exact .ok _
  | some label =>
    simp only [breakable?]
    split
    · exact .ok _
    · exact .ok _
    · exact .error _

theorem jumpTarget_relocate (label : Option Identifier) :
    Carries (FlowError.relocate f) id (scope.jumpTarget kind label range)
      (scope.jumpTarget kind (label.map (·.relocate f)) (f range)) := by
  have hname : (label.map (·.relocate f)).map (·.name) = label.map (·.name) := by
    cases label <;> rfl
  have htext : (label.map (·.relocate f)).elim "" (·.name) = label.elim "" (·.name) := by
    cases label <;> rfl
  rw [jumpTarget, jumpTarget, hname, htext]
  apply Carries.bind (scope.breakable?_relocate kind range _)
  intro breakable
  cases breakable with
  | none => exact .error (FlowError.unresolvedJump kind range)
  | some breakable =>
    simp only [id_eq, Breakable.target]
    split
    · exact .ok _
    · exact .ok _
    · exact .error (FlowError.continueToNonLoop _ range)

end Scope

theorem Stmt.takesLabels_relocate (stmt : Stmt) :
    (stmt.relocate f).takesLabels = stmt.takesLabels := by
  cases stmt <;> simp only [relocate, takesLabels]

theorem Stmt.forEdge_relocate (after : Vertex) (test : Option Expr) :
    forEdge after (Expr.optionRelocate f test) = forEdge after test := by
  cases test <;> simp only [Expr.optionRelocate, forEdge]

theorem Stmt.forHead_relocate (pos testPos : Nat) (stmt : Stmt) (test : Option Expr) :
    forHead pos testPos (stmt.relocate f) (Expr.optionRelocate f test) =
      (forHead pos testPos stmt test).relocate f := by
  cases test <;> simp only [Expr.optionRelocate, forHead, Element.relocate, Node.relocate]

theorem Stmt.redrafted (stmt : Stmt) : stmt.Redrafted f := by
  induction stmt using Stmt.induction with
  | expression range value =>
    intro scope labels pos draft
    simp only [relocate, build, plan, Plan.build_prepend]
    exact .ok_of_eq (by simp)
  | declaration range kind declarators =>
    intro scope labels pos draft
    simp only [relocate, build, plan, Plan.build_prepend]
    exact .ok_of_eq (by simp [relocate])
  | function range name parameters body =>
    intro scope labels pos draft
    simp only [relocate, build, plan, Plan.build_prepend]
    exact .ok_of_eq (by simp [relocate])
  | debugger range =>
    intro scope labels pos draft
    simp only [relocate, build, plan, Plan.build_prepend]
    exact .ok_of_eq (by simp [relocate])
  | empty range =>
    intro scope labels pos draft
    simp only [relocate, build, plan, Plan.build_pure]
    exact .ok draft
  | ifStmt range test body orElse ih ihe =>
    intro scope labels pos draft
    simp only [relocate, build_ifStmt, Expr.size_relocate, size_relocate, Draft.here_relocate]
    apply Carries.bind (Redrafted.buildElse ihe _ _ _)
    rintro ⟨later, onFalse⟩
    simp only [Prod.map, ← Draft.relocate_enter]
    apply Carries.bind (ih _ _ _ _)
    intro built
    exact .ok_of_eq (by simp)
  | whileStmt range test body ih =>
    intro scope labels pos draft
    simp only [relocate, build_whileStmt, Expr.size_relocate, Draft.here_relocate]
    apply Carries.bind (ih.buildLoop _ _ _ _ _ _ _)
    intro built
    exact .ok_of_eq (by simp)
  | doStmt range body test ih =>
    intro scope labels pos draft
    simp only [relocate, build_doStmt, size_relocate, Draft.here_relocate]
    apply Carries.bind (ih.buildLoop _ _ _ _ _ _ _)
    intro built
    exact .ok_of_eq (by simp)
  | forStmt range init test update body ihi ih =>
    intro scope labels pos draft
    have hhead := forHead_relocate (f := f) pos (pos + 1 + optionSize init)
      (forStmt range init test update body) test
    rw [relocate] at hhead
    simp only [relocate, build_forStmt, optionSize_optionRelocate, Expr.optionSize_optionRelocate,
      size_relocate, Draft.here_relocate, forEdge_relocate, hhead]
    have hupdate (later : Nat) : (Expr.optionRelocate f update).map (⟨later, .expression ·⟩) =
        (update.map (⟨later, .expression ·⟩)).map (·.relocate f : Element → Element) := by
      cases update <;> simp [Expr.optionRelocate]
    rw [hupdate]
    apply Carries.bind (ih.buildLoop _ _ _ _ _ _ _)
    intro built
    rw [Draft.next_relocate, ← Draft.relocate_enter]
    exact Redrafted.optionBuild ihi _ _ _
  | forEach range kind left right body ih =>
    intro scope labels pos draft
    simp only [relocate, build_forEach, size_relocate, Expr.size_relocate, Draft.here_relocate]
    apply Carries.bind (ih.buildLoop _ _ _ _ _ _ _)
    intro built
    exact .ok_of_eq (by simp)
  | jump range kind label =>
    intro scope labels pos draft
    simp only [relocate, build_jump]
    apply Carries.bind (scope.jumpTarget_relocate kind range label)
    intro target
    exact .ok_of_eq (by simp [relocate])
  | returnStmt range value =>
    intro scope labels pos draft
    simp only [relocate, build_returnStmt]
    exact .ok_of_eq (by simp [relocate])
  | throwStmt range value =>
    intro scope labels pos draft
    simp only [relocate, build_throwStmt]
    exact .ok_of_eq (by simp [relocate])
  | tryStmt range block handler finalizer ihb ihh ihf =>
    intro scope labels pos draft
    have hbody : (block.relocate f).body = relocates f block.body := by
      obtain ⟨_, body⟩ := block
      rw [Block.relocate]
    simp only [relocate, build_tryStmt, hbody, sizes_relocates, Handler.optionSize_optionRelocate,
      Handler.rescue_relocate, Block.rescue_relocate, Draft.here_relocate]
    apply Carries.bind (Rescue.build_redrafted (Block.forall_rescue ihf _) _ _ _)
    rintro ⟨later, exits⟩
    apply Carries.bind (Rescue.build_redrafted (Handler.forall_rescue ihh _) _ _ _)
    rintro ⟨later, exits⟩
    simp only [Prod.map, id_eq, ← Draft.relocate_enter]
    apply Carries.bind (builds_redrafted ihb _ _ _)
    intro built
    exact .ok_of_eq (by simp)
  | switchStmt range discriminant clauses ih =>
    intro scope labels pos draft
    simp only [relocate, build_switchStmt, Expr.size_relocate, Draft.here_relocate]
    apply Carries.bind (Clause.builds_redrafted ih _ _ _ _)
    rintro ⟨later, entries⟩
    simp only [Prod.map, id_eq, Clause.defaultEntry?_relocates, Clause.addTests_relocates]
    exact .ok_of_eq (by simp)
  | block range body ih =>
    intro scope labels pos draft
    simp only [relocate, build_block]
    exact builds_redrafted ih _ _ _
  | labeled range label body ih =>
    intro scope labels pos draft
    simp only [relocate, build_labeled, takesLabels_relocate]
    split
    · exact ih _ _ _ _
    · rw [Draft.here_relocate, ← Draft.relocate_enter]
      exact ih _ _ _ _
  | withStmt range object body =>
    intro scope labels pos draft
    simp only [relocate, build, plan]
    exact .error _

theorem RawGraph.ofBody_redrafted (options : FlowOptions) (pos : Nat) (body : List Stmt) :
    Carries (FlowError.relocate f) (map (·.relocate f)) (ofBody options pos body)
      (ofBody options pos (Stmt.relocates f body)) := by
  have hbuilds := Stmt.builds_redrafted (f := f) (fun stmt (_ : stmt ∈ body) => stmt.redrafted)
    (Scope.outermost options) pos Draft.initial
  exact .bind hbuilds fun draft => .ok draft.toRawGraph

namespace Body

/-- The nodes of a body start in the same order when they are moved. -/
def KeepsOrder (f : Range → Range) (body : Body) : Prop :=
  ∀ left ∈ body.nodes, ∀ right ∈ body.nodes,
    ((f left.range).start < (f right.range).start ↔ left.range.start < right.range.start)

theorem keepsOrder_of_splice {body : Body} (h : body.KeepsOrder f)
    (hraw : RawGraph.ofBody options body.position body.stmts = .ok raw)
    (hs : raw.splice = .ok spliced) : spliced.KeepsOrder (Element.relocate f) := by
  have hto := RawGraph.splicedTo_of_splice (RawGraph.sound_of_ofBody hraw).inRange hs
  have hnode : ∀ block ∈ spliced.blocks, ∀ element ∈ block.elements, element ∈ body.nodes := by
    intro block hb element he
    have hm : element ∈ raw.elements := by
      rw [← hto.elements_eq]
      exact List.mem_flatMap.2 ⟨block, hb, he⟩
    exact body.evaluated_sublist.subset ((elements_perm_of_ofBody hraw).subset hm)
  intro left hl right hr a ha b hb
  have hab := h a (hnode left hl a ha) b (hnode right hr b hb)
  rw [← a.range_relocate (f := f), ← b.range_relocate (f := f)] at hab
  exact hab

/-- The graph of a moved body is that of the body over the moved elements. -/
theorem graph_relocate {body : Body} (h : body.KeepsOrder f) (options : FlowOptions) :
    Carries (FlowError.relocate f) (Graph.map (·.relocate f)) (body.graph options)
      ((body.relocate f).graph options) := by
  apply Carries.bind_of_ok (RawGraph.ofBody_redrafted options body.position body.stmts)
  intro raw hraw
  have hsplice : Carries (FlowError.relocate f) (RawGraph.map (·.relocate f))
      (raw.splice.mapError FlowError.graph)
      ((raw.map (Element.relocate f)).splice.mapError FlowError.graph) :=
    raw.splice_map.mapError fun _ => rfl
  apply Carries.bind_of_ok hsplice
  intro spliced hspliced
  have horder := keepsOrder_of_splice h hraw (mapError_eq_ok.1 hspliced)
  exact (RawGraph.freeze_map horder).mapError fun _ => rfl

end Body

end FlowLint
