import FlowLint.Proofs.Flow.Census
import FlowLint.Proofs.Flow.Matched
import FlowLint.Proofs.Tree.Unlabeled

/-!
Jumps to unknown labels that go where they would go without them. A body has the graph under this
option that it has without these labels if jumps to unknown labels are errors.
-/
namespace FlowLint
set_option autoImplicit true

/-- An element, and what it becomes without unknown labels. -/
def Element.Unlabels (element element' : Element) : Prop :=
  element'.position = element.position ∧
    ∃ around own, element'.node = element.node.unlabel around own

theorem Element.Unlabels.range {element element' : Element} (h : element.Unlabels element') :
    element.range = element'.range := by
  obtain ⟨-, around, own, hnode⟩ := h
  rw [Element.range, Element.range, hnode, Node.range_unlabel]

theorem Element.unlabels_expression (pos : Nat) (expr : Expr) :
    Element.Unlabels ⟨pos, .expression expr⟩ ⟨pos, .expression expr.unlabel⟩ :=
  ⟨rfl, [], [], rfl⟩

theorem Element.unlabels_statement (pos : Nat) (stmt : Stmt) (around own : List String) :
    Element.Unlabels ⟨pos, .statement stmt⟩ ⟨pos, .statement (stmt.unlabel around own)⟩ :=
  ⟨rfl, around, own, rfl⟩

/-- Two drafts have corresponding blocks and the same current block. -/
structure Draft.Matches (draft draft' : Draft) : Prop where
  blocks : List.Forall₂ (RawBlock.Matches Element.Unlabels) draft.blocks draft'.blocks
  current : draft.current = draft'.current

theorem forall₂_modify {rel : α → β → Prop} {items : List α} {items' : List β} {f : α → α}
    {g : β → β} (h : List.Forall₂ rel items items') (hf : ∀ a b, rel a b → rel (f a) (g b))
    (index : Nat) : List.Forall₂ rel (items.modify index f) (items'.modify index g) := by
  induction h generalizing index with
  | nil => simp
  | cons hr hrest ih =>
    cases index with
    | zero => exact .cons (hf _ _ hr) hrest
    | succ index => exact .cons hr (ih index)

namespace Draft.Matches

variable {draft draft' : Draft}

theorem length_eq (h : draft.Matches draft') : draft.blocks.length = draft'.blocks.length :=
  h.blocks.length_eq

theorem here_eq (h : draft.Matches draft') : draft.here = draft'.here :=
  congrArg Vertex.block h.current

theorem next_eq (h : draft.Matches draft') : draft.next = draft'.next :=
  congrArg Vertex.block h.length_eq

theorem initial : Draft.initial.Matches Draft.initial :=
  ⟨.cons ⟨.nil, rfl⟩ .nil, rfl⟩

theorem prepend (h : draft.Matches draft') (he : Element.Unlabels element element') :
    (draft.prepend element).Matches (draft'.prepend element') := by
  refine ⟨?_, h.current⟩
  rw [Draft.prepend, Draft.prepend, ← h.current]
  apply forall₂_modify h.blocks
  exact fun block block' hb => ⟨.cons he hb.elements, hb.edge⟩

theorem enterBlock (h : draft.Matches draft') (edge : RawEdge) :
    (draft.enterBlock edge).Matches (draft'.enterBlock edge) :=
  ⟨List.rel_append h.blocks (.cons ⟨.nil, rfl⟩ .nil), h.length_eq⟩

theorem enter (h : draft.Matches draft') (target : Vertex) :
    (draft.enter target).Matches (draft'.enter target) :=
  h.enterBlock _

theorem addGuard (h : draft.Matches draft') (edge : RawEdge)
    (he : Element.Unlabels element element') :
    (draft.addGuard edge element).Matches (draft'.addGuard edge element') :=
  ⟨List.rel_append h.blocks (.cons ⟨.cons he .nil, rfl⟩ .nil), h.current⟩

theorem wire (h : draft.Matches draft') (guard : Nat) :
    (draft.wire guard).Matches (draft'.wire guard) := by
  refine ⟨?_, h.current⟩
  rw [Draft.wire, Draft.wire, ← h.here_eq]
  apply forall₂_modify h.blocks
  rintro ⟨elements, edge⟩ ⟨elements', _⟩ ⟨hb, rfl⟩
  rcases edge with (_ | _) | ⟨_ | _, _⟩ <;> exact ⟨hb, rfl⟩

end Draft.Matches

def Draft.MatchesWith (pair pair' : Draft × α) : Prop :=
  pair.1.Matches pair'.1 ∧ pair.2 = pair'.2

theorem Draft.Matches.addUpdate {draft draft' : Draft} {update update' : Option Element}
    (h : draft.Matches draft') (hu : Option.Rel Element.Unlabels update update') (guard : Vertex) :
    Draft.MatchesWith (draft.addUpdate guard update) (draft'.addUpdate guard update') := by
  cases hu with
  | none => exact ⟨h, rfl⟩
  | some he => exact ⟨(h.enter guard).prepend he, (h.enter guard).here_eq⟩

/-- Only an error looks at the label. -/
theorem Breakable.target_of_ok {breakable : Breakable} {kind : JumpKind}
    (h : breakable.target kind label range = .ok vertex) :
    breakable.target kind label' range = .ok vertex := by
  obtain ⟨breakableKind, labels, _ | again, after⟩ := breakable
  · cases kind with
    | «break» => exact h
    | «continue» => cases h
  · cases kind <;> exact h

/-- The options do not forgive an error about a label that no statement carries. -/
def FlowOptions.Excuses (options : FlowOptions) (error : FlowError) : Prop :=
  options.unresolvedLabel = .error ∧ ∃ kind label range, error = .unresolvedLabel kind label range

namespace Scope

/-- The same scope where a jump to an unknown label is an error. -/
def strict (scope : Scope) : Scope :=
  { scope with options := ⟨.error⟩ }

/-- The statements around carry some labels, and no others. -/
structure Covers (scope : Scope) (around : List String) : Prop where
  lawful : scope.Lawful
  labels : ∀ label, label ∈ around ↔ ∃ breakable ∈ scope.breakables, label ∈ breakable.labels

variable {scope : Scope} {around labels : List String}

theorem covers_outermost (options : FlowOptions) : (outermost options).Covers [] :=
  ⟨nofun, fun label => by simp [outermost]⟩

namespace Covers

theorem push (h : scope.Covers around) (breakable : Breakable)
    (hl : (scope.push breakable).Lawful) :
    (scope.push breakable).Covers (breakable.labels ++ around) := by
  refine ⟨hl, fun label => ?_⟩
  rw [List.mem_append, h.labels, Scope.push]
  simp only [List.mem_cons, exists_eq_or_imp]

theorem pushLoop (h : scope.Covers around) (labels : List String) (again after : Vertex) :
    (scope.pushLoop labels again after).Covers (labels ++ around) :=
  h.push _ (h.lawful.pushLoop labels again after)

theorem pushSwitch (h : scope.Covers around) (labels : List String) (after : Vertex) :
    (scope.pushSwitch labels after).Covers (labels ++ around) :=
  h.push _ (h.lawful.pushSwitch labels after)

theorem pushLabeled (h : scope.Covers around) (labels : List String) (after : Vertex) :
    (scope.pushLabeled labels after).Covers (labels ++ around) :=
  h.push _ (h.lawful.pushLabeled labels after)

theorem throwingTo (h : scope.Covers around) (target : Vertex) :
    (scope.throwingTo target).Covers around :=
  ⟨h.lawful.throwingTo target, h.labels⟩

theorem labeled?_isSome (h : scope.Covers around) (label : String) :
    (scope.labeled? label).isSome ↔ label ∈ around := by
  rw [h.labels, labeled?, List.find?_isSome]
  simp only [List.contains_iff_mem]

/-- A jump that stops at the innermost statement goes the same way whatever its label is. -/
theorem innermost_parallel (h : scope.Covers around) (kind : JumpKind) (label : String)
    (range : Range) : Parallel excused (· = ·)
      (match scope.innermost? kind with
        | some breakable => breakable.target kind label range
        | none => .error (.unresolvedJump kind range))
      (match scope.innermost? kind with
        | some breakable => breakable.target kind "" range
        | none => .error (.unresolvedJump kind range)) := by
  cases hi : scope.innermost? kind with
  | none => exact .error _
  | some breakable =>
    obtain ⟨vertex, hv⟩ : ∃ vertex, breakable.target kind label range = .ok vertex :=
      h.lawful.target_of_innermost? hi
    dsimp only
    rw [hv, Breakable.target_of_ok hv]
    exact .ok rfl

theorem jumpTarget_parallel (h : scope.Covers around) (kind : JumpKind) (label : Option Identifier)
    (range : Range) : Parallel scope.options.Excuses (· = ·) (scope.jumpTarget kind label range)
      (scope.strict.jumpTarget kind (label.filter (·.name ∈ around)) range) := by
  cases label with
  | none => exact h.innermost_parallel kind "" range
  | some label =>
    have hknown := h.labeled?_isSome label.name
    cases hl : scope.labeled? label.name with
    | some breakable =>
      rw [hl, Option.isSome_some, eq_self, true_iff] at hknown
      have hfilter : (some label).filter (·.name ∈ around) = some label := by simp [hknown]
      have hstrict : scope.strict.labeled? label.name = some breakable := hl
      simp only [hfilter, jumpTarget, Option.map_some, breakable?, hl, hstrict]
      exact .refl _
    | none =>
      rw [hl, Option.isSome_none, Bool.false_eq_true, false_iff] at hknown
      have hfilter : (some label).filter (·.name ∈ around) = none := by simp [hknown]
      simp only [hfilter, jumpTarget, Option.map_some, breakable?, hl]
      cases ho : scope.options.unresolvedLabel with
      | error => exact .excuse ⟨ho, kind, label.name, range, rfl⟩
      | innermost => exact h.innermost_parallel kind label.name range

end Covers

end Scope

/-- Adding a statement without its unknown labels goes parallel to adding it, in the strict scope. -/
def Stmt.Follows (stmt : Stmt) : Prop :=
  ∀ (scope : Scope) (around labels : List String) (pos : Nat) (draft draft' : Draft),
    scope.Covers around → (stmt.takesLabels = false → labels = []) → draft.Matches draft' →
    Parallel scope.options.Excuses Draft.Matches (stmt.build scope labels pos draft)
      ((stmt.unlabel around labels).build scope.strict labels pos draft')

section Parts

variable {scope : Scope} {around : List String} {draft draft' : Draft} {stmts : List Stmt}

theorem Stmt.builds_follow (h : ∀ stmt ∈ stmts, stmt.Follows) (hs : scope.Covers around)
    (hd : draft.Matches draft') (pos : Nat) :
    Parallel scope.options.Excuses Draft.Matches (Stmt.builds scope pos stmts draft)
      (Stmt.builds scope.strict pos (Stmt.unlabels around stmts) draft') := by
  induction stmts generalizing pos with
  | nil =>
    rw [unlabels]
    exact .ok hd
  | cons stmt stmts ih =>
    obtain ⟨hstmt, hstmts⟩ := List.forall_mem_cons.1 h
    rw [unlabels, builds_cons, builds_cons, size_unlabel]
    exact .bind (ih hstmts _) fun _ _ hrest => hstmt _ _ _ _ _ _ hs (fun _ => rfl) hrest

theorem Stmt.Follows.buildElse {orElse : Option Stmt} (h : ∀ stmt ∈ orElse, Stmt.Follows stmt)
    (hs : scope.Covers around) (hd : draft.Matches draft') (pos : Nat) :
    Parallel scope.options.Excuses Draft.MatchesWith (Stmt.buildElse scope pos orElse draft)
      (Stmt.buildElse scope.strict pos (Stmt.optionUnlabel around orElse) draft') := by
  cases orElse with
  | none =>
    rw [Stmt.optionUnlabel]
    exact .ok ⟨hd, hd.here_eq⟩
  | some orElse =>
    rw [Stmt.optionUnlabel, Stmt.buildElse, Stmt.buildElse, ← hd.here_eq]
    apply Parallel.bind (h _ rfl _ _ _ _ _ _ hs (fun _ => rfl) (hd.enter _))
    exact fun built built' hb => .ok ⟨hb, hb.here_eq⟩

theorem Stmt.Follows.optionBuild {init : Option Stmt} (h : ∀ stmt ∈ init, Stmt.Follows stmt)
    (hs : scope.Covers around) (hd : draft.Matches draft') (pos : Nat) :
    Parallel scope.options.Excuses Draft.Matches (Stmt.optionBuild scope pos init draft)
      (Stmt.optionBuild scope.strict pos (Stmt.optionUnlabel around init) draft') := by
  cases init with
  | none =>
    rw [Stmt.optionUnlabel]
    exact .ok hd
  | some init =>
    rw [Stmt.optionUnlabel]
    exact h _ rfl _ _ _ _ _ _ hs (fun _ => rfl) hd

theorem Stmt.Follows.buildLoop {body : Stmt} (h : body.Follows) (hs : scope.Covers around)
    (hd : draft.Matches draft') (labels : List String) (edge : RawEdge) {head head' : Element}
    (hh : head.Unlabels head') {update update' : Option Element}
    (hu : Option.Rel Element.Unlabels update update') (pos : Nat) :
    Parallel scope.options.Excuses Draft.Matches
      (body.buildLoop scope labels edge head update pos draft)
      ((body.unlabel (labels ++ around) []).buildLoop scope.strict labels edge head' update' pos
        draft') := by
  obtain ⟨hupdated, hagain⟩ := (hd.addGuard edge hh).addUpdate hu draft.next
  rw [Stmt.buildLoop, Stmt.buildLoop, ← hd.here_eq, ← hd.next_eq, ← hd.length_eq, ← hagain]
  have hinner := hs.pushLoop labels ((draft.addGuard edge head).addUpdate draft.next update).2
    draft.here
  apply Parallel.bind (h _ _ _ _ _ _ hinner (fun _ => rfl) (hupdated.enter _))
  exact fun built built' hb => .ok (hb.wire _)

def Rescue.unlabel (around : List String) (rescue : Rescue) : Rescue :=
  ⟨rescue.parameter.map fun parameter => ⟨parameter.position, parameter.node.unlabel [] []⟩,
    rescue.position, Stmt.unlabels around rescue.stmts⟩

theorem Handler.rescue_unlabel (around : List String) (pos : Nat) (handler : Option Handler) :
    (optionUnlabel around handler).map (·.rescue pos) =
      (handler.map (·.rescue pos)).map (·.unlabel around) := by
  rcases handler with _ | ⟨range, _ | parameter, ⟨_, body⟩⟩ <;>
    simp [optionUnlabel, rescue, Rescue.unlabel, Block.unlabel, Expr.optionUnlabel,
      Expr.optionSize, Node.unlabel]

theorem Block.rescue_unlabel (around : List String) (pos : Nat) (block : Option Block) :
    (optionUnlabel around block).map (·.rescue pos) =
      (block.map (·.rescue pos)).map (·.unlabel around) := by
  rcases block with _ | ⟨_, body⟩ <;> simp [optionUnlabel, unlabel, rescue, Rescue.unlabel]

theorem Rescue.build_follows {rescue : Option Rescue}
    (h : ∀ part ∈ rescue, ∀ stmt ∈ Rescue.stmts part, Stmt.Follows stmt)
    (hs : scope.Covers around) (hd : draft.Matches draft') (exits : Vertex × Vertex) :
    Parallel scope.options.Excuses Draft.MatchesWith (Rescue.build scope exits rescue draft)
      (Rescue.build scope.strict exits (rescue.map (·.unlabel around)) draft') := by
  rcases rescue with _ | ⟨parameter, position, stmts⟩
  · exact .ok ⟨hd, rfl⟩
  · apply Parallel.bind (Stmt.builds_follow (h _ rfl) (hs.throwingTo exits.2) (hd.enter exits.1) _)
    intro built built' hb
    have hentry : Draft.Matches (parameter.elim built built.prepend)
        ((Rescue.unlabel around ⟨parameter, position, stmts⟩).parameter.elim built'
          built'.prepend) := by
      cases parameter with
      | none => exact hb
      | some parameter => exact hb.prepend ⟨rfl, [], [], rfl⟩
    exact .ok ⟨hentry, Prod.ext hentry.here_eq hentry.here_eq⟩

theorem Clause.defaultEntry?_unlabels (around : List String) (clauses : List Clause)
    (entries : List Vertex) :
    defaultEntry? (unlabels around clauses) entries = defaultEntry? clauses entries := by
  induction clauses generalizing entries with
  | nil => rw [unlabels]
  | cons clause clauses ih =>
    obtain ⟨range, test, body⟩ := clause
    cases entries with
    | nil => simp [Clause.defaultEntry?]
    | cons entry entries =>
      have hrest := ih entries
      cases test with
      | none => rfl
      | some test => exact hrest

theorem Clause.addTests_follow (hd : draft.Matches draft') (around : List String)
    (other : Vertex) (pos : Nat) (clauses : List Clause) (entries : List Vertex) :
    Draft.MatchesWith (addTests other pos (clauses.zip entries) draft)
      (addTests other pos ((unlabels around clauses).zip entries) draft') := by
  induction clauses generalizing entries pos with
  | nil =>
    rw [unlabels]
    exact ⟨hd, rfl⟩
  | cons clause clauses ih =>
    obtain ⟨range, test, body⟩ := clause
    cases entries with
    | nil =>
      rw [List.zip_nil_right, List.zip_nil_right]
      exact ⟨hd, rfl⟩
    | cons entry entries =>
      cases test with
      | none =>
        simp only [unlabels, Expr.optionUnlabel, List.zip_cons_cons, addTests, Stmt.sizes_unlabels]
        exact ih _ _
      | some test =>
        simp only [unlabels, Expr.optionUnlabel, List.zip_cons_cons, addTests, Expr.size_unlabel,
          Stmt.sizes_unlabels]
        obtain ⟨hrest, hnext⟩ := ih (pos + test.size + Stmt.sizes body) entries
        rw [← hnext]
        have hentered := hrest.enterBlock (.branch (some entry)
          (addTests other (pos + test.size + Stmt.sizes body) (clauses.zip entries) draft).2)
        exact ⟨hentered.prepend (Element.unlabels_expression pos test), hentered.here_eq⟩

theorem Clause.builds_follow {clauses : List Clause}
    (h : ∀ clause ∈ clauses, ∀ stmt ∈ Clause.body clause, Stmt.Follows stmt)
    (hs : scope.Covers around) (hd : draft.Matches draft') (after : Vertex) (pos : Nat) :
    Parallel scope.options.Excuses Draft.MatchesWith (Clause.builds scope after pos clauses draft)
      (Clause.builds scope.strict after pos (unlabels around clauses) draft') := by
  induction clauses generalizing pos with
  | nil =>
    rw [unlabels]
    exact .ok ⟨hd, rfl⟩
  | cons clause clauses ih =>
    obtain ⟨range, test, body⟩ := clause
    obtain ⟨hbody, hclauses⟩ := List.forall_mem_cons.1 h
    simp only [builds_cons, unlabels, Expr.optionSize_optionUnlabel, Stmt.sizes_unlabels]
    apply Parallel.bind (ih hclauses _)
    rintro ⟨later, entries⟩ ⟨later', _⟩ ⟨hlater, rfl⟩
    apply Parallel.bind (Stmt.builds_follow hbody hs (hlater.enter _) _)
    exact fun built built' hb => .ok ⟨hb, congrArg (· :: entries) hb.here_eq⟩

end Parts

theorem Stmt.forEdge_unlabel (after : Vertex) (test : Option Expr) :
    forEdge after (Expr.optionUnlabel test) = forEdge after test := by
  cases test <;> simp only [Expr.optionUnlabel, forEdge]

theorem Stmt.forHead_unlabel (pos testPos : Nat) (stmt : Stmt) (around own : List String)
    (test : Option Expr) : Element.Unlabels (forHead pos testPos stmt test)
      (forHead pos testPos (stmt.unlabel around own) (Expr.optionUnlabel test)) := by
  cases test with
  | none =>
    rw [Expr.optionUnlabel]
    exact Element.unlabels_statement pos stmt around own
  | some test =>
    rw [Expr.optionUnlabel]
    exact Element.unlabels_expression testPos test

theorem Expr.optionUnlabel_rel (pos : Nat) (expr : Option Expr) :
    Option.Rel Element.Unlabels (expr.map fun expr => ⟨pos, .expression expr⟩)
      ((optionUnlabel expr).map fun expr => ⟨pos, .expression expr⟩) := by
  cases expr with
  | none =>
    rw [optionUnlabel]
    exact .none
  | some expr =>
    rw [optionUnlabel]
    exact .some (Element.unlabels_expression pos expr)

theorem Stmt.follows (stmt : Stmt) : stmt.Follows := by
  induction stmt using Stmt.induction with
  | expression range value =>
    intro scope around labels pos draft draft' hs hl hd
    rw [unlabel, build, build, plan, plan]
    exact .ok (hd.prepend (Element.unlabels_expression _ _))
  | declaration range kind declarators =>
    intro scope around labels pos draft draft' hs hl hd
    have he := Element.unlabels_statement pos (.declaration range kind declarators) around labels
    simp only [unlabel, build, plan] at he ⊢
    exact .ok (hd.prepend he)
  | function range name parameters body =>
    intro scope around labels pos draft draft' hs hl hd
    have he := Element.unlabels_statement pos (.function range name parameters body) around labels
    simp only [unlabel, build, plan] at he ⊢
    exact .ok (hd.prepend he)
  | debugger range =>
    intro scope around labels pos draft draft' hs hl hd
    have he := Element.unlabels_statement pos (.debugger range) around labels
    simp only [unlabel, build, plan] at he ⊢
    exact .ok (hd.prepend he)
  | empty range =>
    intro scope around labels pos draft draft' hs hl hd
    rw [unlabel, build, build, plan]
    exact .ok hd
  | ifStmt range test body orElse ihBody ihElse =>
    intro scope around labels pos draft draft' hs hl hd
    obtain rfl := hl rfl
    simp only [unlabel, build_ifStmt, Expr.size_unlabel, size_unlabel, List.nil_append]
    apply Parallel.bind (Follows.buildElse ihElse hs hd _)
    rintro ⟨later, onFalse⟩ ⟨later', _⟩ ⟨hlater, rfl⟩
    rw [← hd.here_eq]
    apply Parallel.bind (ihBody _ _ _ _ _ _ hs (fun _ => rfl) (hlater.enter _))
    intro built built' hb
    rw [← hb.here_eq]
    exact .ok ((hb.enterBlock _).prepend (Element.unlabels_expression _ _))
  | whileStmt range test body ih =>
    intro scope around labels pos draft draft' hs hl hd
    simp only [unlabel, build_whileStmt, Expr.size_unlabel]
    rw [← hd.here_eq, ← hd.next_eq]
    apply Parallel.bind (ih.buildLoop hs hd labels _ (Element.unlabels_expression _ _) .none _)
    exact fun built built' hb => .ok (hb.enter _)
  | doStmt range body test ih =>
    intro scope around labels pos draft draft' hs hl hd
    simp only [unlabel, build_doStmt, size_unlabel]
    rw [← hd.here_eq]
    apply Parallel.bind (ih.buildLoop hs hd labels _ (Element.unlabels_expression _ _) .none _)
    intro built built' hb
    rw [← hb.here_eq]
    exact .ok (hb.enter _)
  | forStmt range init test update body ihInit ih =>
    intro scope around labels pos draft draft' hs hl hd
    have hhead := forHead_unlabel pos (pos + 1 + optionSize init)
      (forStmt range init test update body) around labels test
    rw [unlabel] at hhead
    simp only [unlabel, build_forStmt, optionSize_optionUnlabel, Expr.optionSize_optionUnlabel,
      size_unlabel, forEdge_unlabel]
    rw [← hd.here_eq, ← hd.next_eq]
    apply Parallel.bind (ih.buildLoop hs hd labels _ hhead (Expr.optionUnlabel_rel _ update) _)
    exact fun built built' hb => Follows.optionBuild ihInit hs (hb.enter _) _
  | forEach range kind left right body ih =>
    intro scope around labels pos draft draft' hs hl hd
    simp only [unlabel, build_forEach, size_unlabel, Expr.size_unlabel]
    rw [← hd.here_eq, ← hd.next_eq]
    apply Parallel.bind (ih.buildLoop hs hd labels _ (Element.unlabels_statement _ _ _ _) .none _)
    exact fun built built' hb => .ok ((hb.enter _).prepend (Element.unlabels_expression _ _))
  | jump range kind label =>
    intro scope around labels pos draft draft' hs hl hd
    obtain rfl := hl rfl
    have he := Element.unlabels_statement pos (.jump range kind label) around []
    simp only [unlabel, build_jump, List.nil_append] at he ⊢
    apply Parallel.bind (hs.jumpTarget_parallel kind label range)
    rintro target _ rfl
    exact .ok ((hd.enter target).prepend he)
  | returnStmt range value =>
    intro scope around labels pos draft draft' hs hl hd
    have he := Element.unlabels_statement pos (.returnStmt range value) around labels
    simp only [unlabel, build_returnStmt] at he ⊢
    exact .ok ((hd.enter _).prepend he)
  | throwStmt range value =>
    intro scope around labels pos draft draft' hs hl hd
    have he := Element.unlabels_statement pos (.throwStmt range value) around labels
    simp only [unlabel, build_throwStmt] at he ⊢
    exact .ok ((hd.enter _).prepend he)
  | tryStmt range block handler finalizer ihBlock ihHandler ihFinalizer =>
    intro scope around labels pos draft draft' hs hl hd
    obtain rfl := hl rfl
    have hbody : (block.unlabel around).body = unlabels around block.body := by
      obtain ⟨_, body⟩ := block
      rw [Block.unlabel]
    simp only [unlabel, build_tryStmt, List.nil_append, hbody, sizes_unlabels,
      Handler.optionSize_optionUnlabel, Handler.rescue_unlabel, Block.rescue_unlabel]
    rw [← hd.here_eq]
    apply Parallel.bind (Rescue.build_follows (Block.forall_rescue ihFinalizer _) hs hd _)
    rintro ⟨finished, exits⟩ ⟨finished', _⟩ ⟨hfinished, rfl⟩
    apply Parallel.bind (Rescue.build_follows (Handler.forall_rescue ihHandler _) hs hfinished _)
    rintro ⟨caught, exits'⟩ ⟨caught', _⟩ ⟨hcaught, rfl⟩
    apply Parallel.bind
      (builds_follow ihBlock (hs.throwingTo exits'.2) (hcaught.enter exits'.1) (pos + 1))
    intro built built' hb
    rw [← hb.here_eq]
    exact .ok (hb.enter _)
  | switchStmt range discriminant clauses ih =>
    intro scope around labels pos draft draft' hs hl hd
    simp only [unlabel, build_switchStmt, Expr.size_unlabel]
    rw [← hd.here_eq]
    apply Parallel.bind (Clause.builds_follow ih (hs.pushSwitch labels draft.here) hd _ _)
    rintro ⟨later, entries⟩ ⟨later', _⟩ ⟨hlater, rfl⟩
    obtain ⟨htests, hfirst⟩ := Clause.addTests_follow hlater (labels ++ around)
      ((Clause.defaultEntry? clauses entries).getD draft.here) (pos + 1 + discriminant.size)
      clauses entries
    simp only [Clause.defaultEntry?_unlabels, ← hfirst]
    exact .ok ((htests.enter _).prepend (Element.unlabels_expression _ _))
  | block range body ih =>
    intro scope around labels pos draft draft' hs hl hd
    obtain rfl := hl rfl
    simp only [unlabel, build_block, List.nil_append]
    exact builds_follow ih hs hd _
  | labeled range label body ih =>
    intro scope around labels pos draft draft' hs hl hd
    simp only [unlabel, build_labeled, takesLabels_unlabel]
    split
    · rename_i htakes
      exact ih _ _ _ _ _ _ hs (by simp [htakes]) hd
    · rename_i htakes
      rw [unlabel_of_takesLabels (eq_false_of_ne_true htakes), ← hd.here_eq]
      exact ih _ _ _ _ _ _ (hs.pushLabeled _ _) (fun _ => rfl) (hd.enter _)
  | withStmt range object body =>
    intro scope around labels pos draft draft' hs hl hd
    simp only [unlabel, build, plan]
    exact .error _

theorem RawGraph.ofBody_parallel (options : FlowOptions) (pos : Nat) (stmts : List Stmt) :
    Parallel options.Excuses (RawGraph.Matches Element.Unlabels) (ofBody options pos stmts)
      (ofBody ⟨.error⟩ pos (Stmt.unlabels [] stmts)) := by
  have hbuilds := Stmt.builds_follow (fun stmt (_ : stmt ∈ stmts) => stmt.follows)
    (Scope.covers_outermost options) Draft.Matches.initial pos
  exact hbuilds.bind fun draft draft' hd => .ok ⟨hd.blocks, hd.here_eq⟩

theorem forall₂_eq_of_common {rel : α → β → Prop} {items items' : List α} {common : List β}
    (h : List.Forall₂ rel items common) (h' : List.Forall₂ rel items' common)
    (hr : ∀ a ∈ items, ∀ a' ∈ items', ∀ b, rel a b → rel a' b → a = a') : items = items' := by
  induction h generalizing items' with
  | nil =>
    cases h'
    rfl
  | cons hab _ ih =>
    cases h' with
    | cons hab' hrest =>
      have hhead := hr _ (List.mem_cons_self ..) _ (List.mem_cons_self ..) _ hab hab'
      have htail := ih hrest fun a ha a' ha' =>
        hr a (List.mem_cons_of_mem _ ha) a' (List.mem_cons_of_mem _ ha')
      rw [hhead, htail]

namespace Body

variable {body : Body} {graph other third : Graph Element}

theorem graph_parallel (options : FlowOptions) (body : Body) :
    Parallel options.Excuses (Graph.Matches Element.Unlabels) (body.graph options)
      (body.unlabel.graph ⟨.error⟩) := by
  apply (RawGraph.ofBody_parallel options body.position body.stmts).bind
  intro raw raw' hraw
  have hfinish := hraw.finish fun _ _ he => he.range
  have hmap (raw : RawGraph Element) : (raw.splice >>= RawGraph.freeze).mapError FlowError.graph =
      (do
        let spliced ← raw.splice.mapError FlowError.graph
        spliced.freeze.mapError FlowError.graph) := by
    cases raw.splice <;> rfl
  rw [← hmap, ← hmap]
  exact hfinish.mapError FlowError.graph

theorem eq_of_unlabels (hg : body.graph options = .ok graph) (ho : body.graph options' = .ok other)
    (h : graph.Matches Element.Unlabels third) (h' : other.Matches Element.Unlabels third) :
    graph = other := by
  have hnode : ∀ a ∈ body.evaluated, ∀ a' ∈ body.evaluated, ∀ b, a.Unlabels b → a'.Unlabels b →
      a = a' := by
    intro a ha a' ha' b hb hb'
    exact List.inj_on_of_nodup_map body.evaluated_nodup ha ha' (hb.1.symm.trans hb'.1)
  have hblocks : graph.blocks = other.blocks := by
    apply forall₂_eq_of_common h.blocks h'.blocks
    rintro ⟨elements, edge⟩ hm ⟨elements', edge'⟩ hm' block hb hb'
    obtain rfl : edge = edge' := hb.edge.trans hb'.edge.symm
    obtain rfl : elements = elements' := by
      apply forall₂_eq_of_common hb.elements hb'.elements
      intro a ha a' ha'
      exact hnode a ((elements_perm hg).subset (List.mem_flatMap.2 ⟨_, hm, ha⟩))
        a' ((elements_perm ho).subset (List.mem_flatMap.2 ⟨_, hm', ha'⟩))
    rfl
  obtain ⟨blocks, start⟩ := graph
  obtain ⟨blocks', start'⟩ := other
  obtain rfl : blocks = blocks' := hblocks
  obtain rfl : start = start' := h.start.trans h'.start.symm
  rfl

/-- A body whose jumps to unknown labels go where they would go without them, and the body without
these labels, both have graphs with corresponding blocks, under the same numbers and with the same
edges and start, or both fail with the same error. So a body that has a graph when such jumps are
errors has the same graph when they are not, and every other error stays as it is. -/
theorem graph_unlabel (body : Body) :
    ((∃ graph graph', body.graph ⟨.innermost⟩ = .ok graph ∧
        body.unlabel.graph ⟨.error⟩ = .ok graph' ∧ graph.Matches Element.Unlabels graph') ∨
      ∃ error, body.graph ⟨.innermost⟩ = .error error ∧
        body.unlabel.graph ⟨.error⟩ = .error error) ∧
    (∀ graph, body.graph ⟨.error⟩ = .ok graph → body.graph ⟨.innermost⟩ = .ok graph) ∧
    ∀ error, body.graph ⟨.error⟩ = .error error →
      (∀ kind label range, error ≠ .unresolvedLabel kind label range) →
      body.graph ⟨.innermost⟩ = .error error := by
  have hlenient := (body.graph_parallel ⟨.innermost⟩).both fun _ hexcused => nomatch hexcused.1
  have hstrict := body.graph_parallel ⟨.error⟩
  refine ⟨hlenient, fun graph hgraph => ?_, fun error herror hkind => ?_⟩
  · rw [hgraph] at hstrict
    obtain ⟨unlabeled, hunlabeled, hmatches⟩ := hstrict.exists_of_ok
    rcases hlenient with ⟨other, unlabeled', hother, hunlabeled', hmatches'⟩ | ⟨error, -, herror⟩
    · rw [hunlabeled, Except.ok.injEq] at hunlabeled'
      rw [hother, eq_of_unlabels hgraph hother hmatches (hunlabeled' ▸ hmatches')]
    · rw [hunlabeled] at herror
      cases herror
  · rw [herror] at hstrict
    have hunlabeled := hstrict.eq_of_error
      fun ⟨_, kind, label, range, he⟩ => hkind kind label range he
    rcases hlenient with ⟨_, _, _, hok, _⟩ | ⟨other, hother, hother'⟩
    · rw [hunlabeled] at hok
      cases hok
    · rw [hunlabeled, Except.error.injEq] at hother'
      rw [hother, hother']

/-- A loop with a label that is left by a jump to some label: `a: for (;;) { break b; }` -/
def leftFor (label : String) : Body :=
  ⟨.script, ⟨0, 24⟩, 0, [
    .labeled ⟨0, 24⟩ ⟨"a", ⟨0, 1⟩⟩
      (.forStmt ⟨3, 24⟩ none none none (.block ⟨12, 24⟩ [
        .jump ⟨14, 22⟩ .break (some ⟨label, ⟨20, 21⟩⟩)]))]⟩

/-- A jump out of nothing: `continue` -/
def leftNothing : Body :=
  ⟨.script, ⟨0, 8⟩, 0, [.jump ⟨0, 8⟩ .continue none]⟩

theorem graph_unlabel_leftFor :
    (∃ graph graph', (leftFor "b").graph ⟨.innermost⟩ = .ok graph ∧
      (leftFor "b").unlabel.graph ⟨.error⟩ = .ok graph' ∧
      graph.Matches Element.Unlabels graph') ∧
    (leftFor "b").graph ⟨.error⟩ = .error (.unresolvedLabel .break "b" ⟨14, 22⟩) ∧
    (∃ graph, (leftFor "a").graph ⟨.error⟩ = .ok graph ∧
      (leftFor "a").graph ⟨.innermost⟩ = .ok graph) ∧
    leftNothing.graph ⟨.innermost⟩ = .error (.unresolvedJump .continue ⟨0, 8⟩) := by
  have hok : ∃ graph, (leftFor "b").graph ⟨.innermost⟩ = .ok graph := exists_graph (by decide)
  refine ⟨?_, rfl, ?_, ?_⟩
  · rcases (graph_unlabel (leftFor "b")).1 with hgraphs | ⟨error, herror, -⟩
    · exact hgraphs
    · obtain ⟨graph, hgraph⟩ := hok
      rw [hgraph] at herror
      cases herror
  · obtain ⟨graph, hgraph⟩ : ∃ graph, (leftFor "a").graph ⟨.error⟩ = .ok graph :=
      exists_graph (by decide)
    exact ⟨graph, hgraph, (graph_unlabel (leftFor "a")).2.1 graph hgraph⟩
  · exact (graph_unlabel leftNothing).2.2 _ rfl nofun

end Body

end FlowLint
