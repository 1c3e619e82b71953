import FlowLint.Proofs.Flow.Parts
import FlowLint.Proofs.Success
import FlowLint.Proofs.Tree.Induction
import FlowLint.Tree.Body

namespace FlowLint
set_option autoImplicit true

/-- A statement around that jumps can leave, and the labels in front of it. -/
structure Enclosing where
  kind : BreakableKind
  labels : List String
deriving DecidableEq, Repr

namespace Enclosing

def stops (kind : JumpKind) (enclosing : Enclosing) : Bool :=
  match kind with
  | .break => enclosing.kind != .labeled
  | .continue => enclosing.kind == .loop

end Enclosing

/-- What is wrong with a jump among the statements around it, the innermost first. -/
def JumpKind.offence? (options : FlowOptions) (around : List Enclosing) (range : Range)
    (kind : JumpKind) (label : Option String) : Option FlowError :=
  let unlabeled := if around.any (·.stops kind) then none else some (.unresolvedJump kind range)
  match label with
  | none => unlabeled
  | some label =>
    match around.find? (·.labels.contains label), options.unresolvedLabel with
    | some enclosing, _ =>
      if kind = .continue ∧ enclosing.kind ≠ .loop then some (.continueToNonLoop label range)
      else none
    | none, .error => some (.unresolvedLabel kind label range)
    | none, .innermost => unlabeled

mutual

/-- What is wrong with a statement and those in it, in source order. Nested functions are other
bodies, and nothing is looked for behind `with`. -/
def Stmt.offences (options : FlowOptions) (around : List Enclosing) (labels : List String)
    (stmt : Stmt) : List FlowError :=
  match stmt with
  | .expression .. | .declaration .. | .function .. | .returnStmt .. | .throwStmt .. | .empty _
  | .debugger _ => []
  | .ifStmt _ _ body orElse =>
    body.offences options around [] ++
      match orElse with
      | some orElse => orElse.offences options around []
      | none => []
  | .whileStmt _ _ body | .doStmt _ body _ | .forEach _ _ _ _ body =>
    body.offences options (⟨.loop, labels⟩ :: around) []
  | .forStmt _ init _ _ body =>
    (match init with
      | some init => init.offences options around []
      | none => []) ++
      body.offences options (⟨.loop, labels⟩ :: around) []
  | .jump range kind label =>
    (kind.offence? options around range (label.map (·.name))).toList
  | .tryStmt _ ⟨_, body⟩ handler finalizer =>
    Stmt.offencesIn options around body ++
      (match handler with
      | some ⟨_, _, ⟨_, caught⟩⟩ => Stmt.offencesIn options around caught
      | none => []) ++
      match finalizer with
      | some ⟨_, final⟩ => Stmt.offencesIn options around final
      | none => []
  | .switchStmt _ _ clauses => Clause.offences options (⟨.switch, labels⟩ :: around) clauses
  | .block _ body => Stmt.offencesIn options around body
  | .labeled _ label body =>
    let labels := labels ++ [label.name]
    if body.takesLabels then body.offences options around labels
    else body.offences options (⟨.labeled, labels⟩ :: around) []
  | .withStmt range .. => [.unsupported "with" range]

def Stmt.offencesIn (options : FlowOptions) (around : List Enclosing) : List Stmt → List FlowError
  | [] => []
  | stmt :: stmts =>
    stmt.offences options around [] ++ Stmt.offencesIn options around stmts

def Clause.offences (options : FlowOptions) (around : List Enclosing) :
    List Clause → List FlowError
  | [] => []
  | ⟨_, _, body⟩ :: clauses =>
    Stmt.offencesIn options around body ++ Clause.offences options around clauses

end

section Equations

variable (options : FlowOptions) (around : List Enclosing) (labels : List String) (range : Range)

theorem Stmt.offences_ifStmt (test : Expr) (body : Stmt) (orElse : Option Stmt) :
    (ifStmt range test body orElse).offences options around labels =
      body.offences options around [] ++ orElse.elim [] (·.offences options around []) := by
  cases orElse <;> rfl

theorem Stmt.offences_forStmt (init : Option Stmt) (test update : Option Expr) (body : Stmt) :
    (forStmt range init test update body).offences options around labels =
      init.elim [] (·.offences options around []) ++
        body.offences options (⟨.loop, labels⟩ :: around) [] := by
  cases init <;> rfl

theorem Stmt.offences_tryStmt (block : Block) (handler : Option Handler)
    (finalizer : Option Block) :
    (tryStmt range block handler finalizer).offences options around labels =
      offencesIn options around block.body ++
        handler.elim [] (offencesIn options around ·.body.body) ++
        finalizer.elim [] (offencesIn options around ·.body) := by
  obtain ⟨_, body⟩ := block
  rcases handler with _ | ⟨_, _, ⟨_, caught⟩⟩ <;> rcases finalizer with _ | ⟨_, final⟩ <;> rfl

end Equations

def Body.offences (options : FlowOptions) (body : Body) : List FlowError :=
  Stmt.offencesIn options [] body.stmts

/-- A computation fails with the last of some errors, and succeeds if there are none. -/
def FailsWithLast (errors : List FlowError) (x : Except FlowError α) : Prop :=
  match errors.getLast? with
  | none => ∃ a, x = .ok a
  | some error => x = .error error

theorem failsWithLast_ok (a : α) : FailsWithLast [] (.ok a) :=
  ⟨a, rfl⟩

/-- What comes first in a computation comes last in the source. -/
theorem FailsWithLast.bind {x : Except FlowError α} {f : α → Except FlowError β}
    (hx : FailsWithLast late x) (hf : ∀ a, x = .ok a → FailsWithLast early (f a)) :
    FailsWithLast (early ++ late) (x >>= f) := by
  simp only [FailsWithLast] at *
  rw [List.getLast?_append]
  cases hl : late.getLast? with
  | some error =>
    rw [hl] at hx
    rw [hx]
    rfl
  | none =>
    rw [hl] at hx
    obtain ⟨a, rfl⟩ := hx
    exact hf a rfl

theorem FailsWithLast.map {x : Except FlowError α} (hx : FailsWithLast errors x) (f : α → β) :
    FailsWithLast errors (x >>= fun a => pure (f a)) :=
  hx.bind fun a _ => failsWithLast_ok (f a)

theorem FailsWithLast.eq_nil (h : FailsWithLast errors (.ok a)) : errors = [] := by
  simp only [FailsWithLast] at h
  cases hl : errors.getLast? with
  | none => exact List.getLast?_eq_none_iff.1 hl
  | some error =>
    rw [hl] at h
    cases h

def Breakable.enclosing (breakable : Breakable) : Enclosing :=
  ⟨breakable.kind, breakable.labels⟩

namespace Scope

/-- The statements around, without the targets of jumps to them. -/
def around (scope : Scope) : List Enclosing :=
  scope.breakables.map (·.enclosing)

/-- The loops around can be continued, and nothing else can. -/
def Lawful (scope : Scope) : Prop :=
  ∀ breakable ∈ scope.breakables, breakable.continueTarget.isSome = (breakable.kind == .loop)

variable {scope : Scope}

theorem Lawful.push {breakable : Breakable} (h : scope.Lawful)
    (hb : breakable.continueTarget.isSome = (breakable.kind == .loop)) :
    (scope.push breakable).Lawful :=
  List.forall_mem_cons.2 ⟨hb, h⟩

theorem Lawful.pushLoop (h : scope.Lawful) (labels : List String) (again after : Vertex) :
    (scope.pushLoop labels again after).Lawful :=
  h.push rfl

theorem Lawful.pushSwitch (h : scope.Lawful) (labels : List String) (after : Vertex) :
    (scope.pushSwitch labels after).Lawful :=
  h.push rfl

theorem Lawful.pushLabeled (h : scope.Lawful) (labels : List String) (after : Vertex) :
    (scope.pushLabeled labels after).Lawful :=
  h.push rfl

theorem Lawful.throwingTo (h : scope.Lawful) (target : Vertex) :
    (scope.throwingTo target).Lawful :=
  h

theorem any_stops (scope : Scope) (kind : JumpKind) :
    scope.around.any (·.stops kind) = (scope.innermost? kind).isSome := by
  rw [around, List.any_map, innermost?, List.isSome_find?]
  rfl

theorem find?_around (scope : Scope) (label : String) :
    scope.around.find? (·.labels.contains label) = (scope.labeled? label).map (·.enclosing) := by
  rw [around, List.find?_map]
  rfl

theorem Lawful.target_of_innermost? (h : scope.Lawful)
    (hi : scope.innermost? kind = some breakable) :
    ∃ vertex, breakable.target kind label range = .ok vertex := by
  have hs := List.find?_some hi
  have hc := h breakable (List.mem_of_find?_eq_some hi)
  cases kind with
  | «break» => exact ⟨breakable.breakTarget, rfl⟩
  | «continue» =>
    rw [Breakable.stops] at hs
    rw [hs, Option.isSome_iff_exists] at hc
    obtain ⟨vertex, hv⟩ := hc
    exact ⟨vertex, by simp [Breakable.target, hv]⟩

/-- The innermost statement around decides about an unlabeled jump. -/
theorem Lawful.failsWithLast_innermost? (h : scope.Lawful) (kind : JumpKind) (label : String)
    (range : Range) :
    FailsWithLast
      (if scope.around.any (·.stops kind) then none else some (.unresolvedJump kind range)).toList
      (match scope.innermost? kind with
        | some breakable => breakable.target kind label range
        | none => .error (.unresolvedJump kind range)) := by
  rw [any_stops]
  cases hi : scope.innermost? kind with
  | none => rfl
  | some breakable => exact h.target_of_innermost? hi

theorem Lawful.failsWithLast_jumpTarget (h : scope.Lawful) (kind : JumpKind)
    (label : Option Identifier) (range : Range) :
    FailsWithLast (kind.offence? scope.options scope.around range (label.map (·.name))).toList
      (scope.jumpTarget kind label range) := by
  cases label with
  | none => exact h.failsWithLast_innermost? kind "" range
  | some label =>
    simp only [JumpKind.offence?, jumpTarget, Option.map_some, breakable?, find?_around]
    cases hl : scope.labeled? label.name with
    | none =>
      cases scope.options.unresolvedLabel with
      | error => rfl
      | innermost => exact h.failsWithLast_innermost? kind label.name range
    | some breakable =>
      have hc := h breakable (List.mem_of_find?_eq_some hl)
      cases kind with
      | «break» => exact ⟨breakable.breakTarget, rfl⟩
      | «continue» =>
        cases hv : breakable.continueTarget with
        | none =>
          have hk : breakable.kind ≠ .loop := by simpa [hv] using hc
          simp [FailsWithLast, Breakable.enclosing, hk, Breakable.target, hv, bind, Except.bind]
        | some vertex =>
          have hk : breakable.kind = .loop := by simpa [hv] using hc
          simp [FailsWithLast, Breakable.enclosing, hk, Breakable.target, hv, bind, Except.bind]

end Scope

section Drafting

variable {scope : Scope} {stmts : List Stmt}

/-- Drafting a statement in any lawful scope fails with its last offence. -/
def Stmt.DraftFails (stmt : Stmt) : Prop :=
  ∀ (scope : Scope) (labels : List String) (pos : Nat) (draft : Draft), scope.Lawful →
    FailsWithLast (stmt.offences scope.options scope.around labels)
      (stmt.build scope labels pos draft)

theorem Stmt.builds_failsWithLast (h : ∀ stmt ∈ stmts, stmt.DraftFails) (hs : scope.Lawful)
    (pos : Nat) (draft : Draft) :
    FailsWithLast (Stmt.offencesIn scope.options scope.around stmts)
      (Stmt.builds scope pos stmts draft) := by
  induction stmts generalizing pos with
  | nil => exact failsWithLast_ok draft
  | cons stmt stmts ih =>
    rw [Stmt.offencesIn, Stmt.builds_cons]
    have hrest := ih (fun stmt hm => h stmt (List.mem_cons_of_mem _ hm)) (pos + stmt.size)
    exact hrest.bind fun draft _ => h stmt (List.mem_cons_self ..) scope [] pos draft hs

theorem Clause.builds_failsWithLast {clauses : List Clause}
    (h : ∀ clause ∈ clauses, ∀ stmt ∈ clause.body, stmt.DraftFails) (hs : scope.Lawful)
    (after : Vertex) (pos : Nat) (draft : Draft) :
    FailsWithLast (Clause.offences scope.options scope.around clauses)
      (Clause.builds scope after pos clauses draft) := by
  induction clauses generalizing pos with
  | nil => exact failsWithLast_ok _
  | cons clause clauses ih =>
    obtain ⟨range, test, body⟩ := clause
    rw [Clause.offences, Clause.builds_cons]
    apply FailsWithLast.bind (ih (fun clause hm => h clause (List.mem_cons_of_mem _ hm)) _)
    intro built _
    exact (Stmt.builds_failsWithLast (h _ (List.mem_cons_self ..)) hs _ _).map _

theorem Stmt.DraftFails.buildElse {orElse : Option Stmt}
    (h : ∀ stmt ∈ orElse, Stmt.DraftFails stmt) (hs : scope.Lawful) (pos : Nat) (draft : Draft) :
    FailsWithLast (orElse.elim [] (·.offences scope.options scope.around []))
      (Stmt.buildElse scope pos orElse draft) := by
  cases orElse with
  | none => exact failsWithLast_ok _
  | some orElse => exact (h orElse rfl scope [] pos _ hs).map _

theorem Stmt.DraftFails.buildLoop {body : Stmt} (h : body.DraftFails) (hs : scope.Lawful)
    (labels : List String) (edge : RawEdge) (head : Element) (update : Option Element) (pos : Nat)
    (draft : Draft) :
    FailsWithLast (body.offences scope.options (⟨.loop, labels⟩ :: scope.around) [])
      (body.buildLoop scope labels edge head update pos draft) :=
  (h _ [] pos _ (hs.pushLoop labels _ _)).map _

theorem Stmt.DraftFails.optionBuild {init : Option Stmt}
    (h : ∀ stmt ∈ init, Stmt.DraftFails stmt) (hs : scope.Lawful) (pos : Nat) (draft : Draft) :
    FailsWithLast (init.elim [] (·.offences scope.options scope.around []))
      (Stmt.optionBuild scope pos init draft) := by
  cases init with
  | none => exact failsWithLast_ok _
  | some init => exact h init rfl scope [] pos draft hs

theorem Rescue.build_failsWithLast {rescue : Option Rescue}
    (h : ∀ part ∈ rescue, ∀ stmt ∈ Rescue.stmts part, Stmt.DraftFails stmt) (hs : scope.Lawful)
    (exits : Vertex × Vertex) (draft : Draft) :
    FailsWithLast (rescue.elim [] (Stmt.offencesIn scope.options scope.around ·.stmts))
      (Rescue.build scope exits rescue draft) := by
  cases rescue with
  | none => exact failsWithLast_ok _
  | some rescue =>
    exact (Stmt.builds_failsWithLast (h rescue rfl) (hs.throwingTo exits.2) _ _).map _

theorem Stmt.build_failsWithLast (stmt : Stmt) : stmt.DraftFails := by
  induction stmt using Stmt.induction with
  | expression | declaration | function | returnStmt | throwStmt | empty | debugger =>
    intro scope labels pos draft hs
    rw [Stmt.offences]
    exact failsWithLast_ok _
  | withStmt range object body =>
    intro scope labels pos draft hs
    rw [Stmt.offences]
    rfl
  | ifStmt range test body orElse ihBody ihElse =>
    intro scope labels pos draft hs
    rw [Stmt.offences_ifStmt, Stmt.build_ifStmt]
    apply FailsWithLast.bind (Stmt.DraftFails.buildElse ihElse hs _ draft)
    intro built _
    exact (ihBody scope [] _ _ hs).map _
  | whileStmt range test body ih =>
    intro scope labels pos draft hs
    rw [Stmt.offences, Stmt.build_whileStmt]
    exact (ih.buildLoop hs ..).map _
  | doStmt range body test ih =>
    intro scope labels pos draft hs
    rw [Stmt.offences, Stmt.build_doStmt]
    exact (ih.buildLoop hs ..).map _
  | forEach range kind left right body ih =>
    intro scope labels pos draft hs
    rw [Stmt.offences, Stmt.build_forEach]
    exact (ih.buildLoop hs ..).map _
  | forStmt range init test update body ihInit ih =>
    intro scope labels pos draft hs
    rw [Stmt.offences_forStmt, Stmt.build_forStmt]
    apply FailsWithLast.bind (ih.buildLoop hs labels _ _ _ _ draft)
    intro built _
    exact Stmt.DraftFails.optionBuild ihInit hs _ _
  | jump range kind label =>
    intro scope labels pos draft hs
    rw [Stmt.offences, Stmt.build_jump]
    exact (hs.failsWithLast_jumpTarget kind label range).map _
  | tryStmt range block handler finalizer ihBlock ihHandler ihFinalizer =>
    intro scope labels pos draft hs
    rw [Stmt.offences_tryStmt, Stmt.build_tryStmt]
    have hf := fun pos => Rescue.build_failsWithLast (Block.forall_rescue ihFinalizer pos) hs
    have hh := fun pos => Rescue.build_failsWithLast (Handler.forall_rescue ihHandler pos) hs
    simp only [Option.elim_map] at hf hh
    apply FailsWithLast.bind (hf _ _ draft)
    rintro ⟨_, _⟩ -
    apply FailsWithLast.bind (hh _ _ _)
    rintro ⟨_, exits⟩ -
    exact (Stmt.builds_failsWithLast ihBlock (hs.throwingTo exits.2) _ _).map _
  | switchStmt range discriminant clauses ih =>
    intro scope labels pos draft hs
    rw [Stmt.offences, Stmt.build_switchStmt]
    exact (Clause.builds_failsWithLast ih (hs.pushSwitch labels _) _ _ _).map _
  | block range body ih =>
    intro scope labels pos draft hs
    rw [Stmt.offences, Stmt.build_block]
    exact Stmt.builds_failsWithLast ih hs _ _
  | labeled range label body ih =>
    intro scope labels pos draft hs
    rw [Stmt.offences, Stmt.build_labeled]
    split
    · exact ih scope _ _ _ hs
    · exact ih _ [] _ _ (hs.pushLabeled _ _)

end Drafting

end FlowLint
