import FlowLint.Proofs.Flow.Census
import FlowLint.Proofs.Tree.Throughout

namespace FlowLint
set_option autoImplicit true

/-- What a node does to the block it stands in. -/
inductive Role
  /-- The run goes on behind it. -/
  | plain
  /-- The run goes on elsewhere. -/
  | jump
  /-- The run leaves the body. -/
  | leave
  /-- It decides how the run goes on. -/
  | test
  /-- It decides again and again, or only when the run gets to it from elsewhere. -/
  | guard
  /-- The run comes back to it, and it decides nothing. -/
  | endless
deriving DecidableEq, Repr

namespace Role

def decides : Role → Bool
  | test | guard => true
  | _ => false

def standsAlone : Role → Bool
  | guard | endless => true
  | _ => false

/-- The role of a statement that is evaluated as a whole and decides nothing. -/
def ofStmt : Stmt → Role
  | .jump .. | .throwStmt .. => .jump
  | .returnStmt .. => .leave
  | .forStmt _ _ none _ _ => .endless
  | _ => .plain

end Role

def Expr.optionRoles (role : Role) (pos : Nat) (expr : Option Expr) : List (Element × Role) :=
  (Expr.optionEvaluated pos expr).map (·, role)

mutual

/-- The nodes that a statement at `pos` evaluates, each with its role. The test of an `if` ends the
block of what stands in front of it. The tests of loops and of clauses, and the left sides of loops
over a subject, stand alone. -/
def Stmt.roles (pos : Nat) (stmt : Stmt) : List (Element × Role) :=
  match stmt with
  | .expression _ value => [(⟨pos + 1, .expression value⟩, .plain)]
  | .declaration .. | .function .. | .debugger _ => [(⟨pos, .statement stmt⟩, .plain)]
  | .jump .. | .throwStmt .. => [(⟨pos, .statement stmt⟩, .jump)]
  | .returnStmt .. => [(⟨pos, .statement stmt⟩, .leave)]
  | .ifStmt _ test body orElse =>
    let bodyPos := pos + 1 + test.size
    (⟨pos + 1, .expression test⟩, .test) :: body.roles bodyPos ++
      match orElse with
      | some orElse => orElse.roles (bodyPos + body.size)
      | none => []
  | .whileStmt _ test body =>
    (⟨pos + 1, .expression test⟩, .guard) :: body.roles (pos + 1 + test.size)
  | .doStmt _ body test =>
    body.roles (pos + 1) ++ [(⟨pos + 1 + body.size, .expression test⟩, .guard)]
  | .forStmt _ init test update body =>
    let testPos := pos + 1 + Stmt.optionSize init
    let bodyPos := testPos + Expr.optionSize test
    (if test.isNone then [(⟨pos, .statement stmt⟩, .endless)] else []) ++
      (match init with
        | some init => init.roles (pos + 1)
        | none => []) ++
      Expr.optionRoles .guard testPos test ++ body.roles bodyPos ++
      Expr.optionRoles .plain (bodyPos + body.size) update
  | .forEach _ _ left right body =>
    let leftPos := pos + 1 + right.size
    (⟨pos + 1, .expression right⟩, .plain) :: (⟨leftPos, .statement left⟩, .guard) ::
      body.roles (leftPos + left.size)
  | .tryStmt _ ⟨_, body⟩ handler finalizer =>
    let handlerPos := pos + 1 + Stmt.sizes body
    let finalPos := handlerPos + Handler.optionSize handler
    Stmt.rolesIn (pos + 1) body ++
      (match handler with
        | some ⟨_, parameter, ⟨_, caught⟩⟩ =>
          Expr.optionRoles .plain handlerPos parameter ++
            Stmt.rolesIn (handlerPos + Expr.optionSize parameter) caught
        | none => []) ++
      match finalizer with
      | some ⟨_, final⟩ => Stmt.rolesIn finalPos final
      | none => []
  | .switchStmt _ discriminant clauses =>
    (⟨pos + 1, .expression discriminant⟩, .plain) ::
      Clause.roles (pos + 1 + discriminant.size) clauses
  | .block _ body => Stmt.rolesIn (pos + 1) body
  | .labeled _ _ body => body.roles (pos + 1)
  | .empty _ | .withStmt .. => []

def Stmt.rolesIn (pos : Nat) : List Stmt → List (Element × Role)
  | [] => []
  | stmt :: stmts => stmt.roles pos ++ Stmt.rolesIn (pos + stmt.size) stmts

def Clause.roles (pos : Nat) : List Clause → List (Element × Role)
  | [] => []
  | ⟨_, test, body⟩ :: clauses =>
    let bodyPos := pos + Expr.optionSize test
    Expr.optionRoles .guard pos test ++ Stmt.rolesIn bodyPos body ++
      Clause.roles (bodyPos + Stmt.sizes body) clauses

end

def Rescue.roles (rescue : Rescue) : List (Element × Role) :=
  rescue.parameter.toList.map (·, .plain) ++ Stmt.rolesIn rescue.position rescue.stmts

namespace Body

def roles (body : Body) : List (Element × Role) :=
  Stmt.rolesIn body.position body.stmts

/-- The tests of a body, its case tests, and the left sides of its loops over a subject. -/
def conditions (body : Body) : List Element :=
  (body.roles.filter (·.2.decides)).map (·.1)

/-- The guards of the loops of a body, and its case tests. -/
def guards (body : Body) : List Element :=
  (body.roles.filter (·.2.standsAlone)).map (·.1)

end Body

section Equations

variable (pos : Nat) (range : Range)

theorem Stmt.roles_ifStmt (test : Expr) (body : Stmt) (orElse : Option Stmt) :
    (ifStmt range test body orElse).roles pos =
      (⟨pos + 1, .expression test⟩, .test) :: body.roles (pos + 1 + test.size) ++
        orElse.elim [] (·.roles (pos + 1 + test.size + body.size)) := by
  cases orElse <;> rfl

theorem Stmt.roles_forStmt (init : Option Stmt) (test update : Option Expr) (body : Stmt) :
    (forStmt range init test update body).roles pos =
      (if test.isNone then [(⟨pos, .statement (forStmt range init test update body)⟩, .endless)]
        else []) ++
        init.elim [] (·.roles (pos + 1)) ++
        Expr.optionRoles .guard (pos + 1 + optionSize init) test ++
        body.roles (pos + 1 + optionSize init + Expr.optionSize test) ++
        Expr.optionRoles .plain
          (pos + 1 + optionSize init + Expr.optionSize test + body.size) update := by
  cases init <;> rfl

theorem Stmt.roles_tryStmt (block : Block) (handler : Option Handler) (finalizer : Option Block) :
    (tryStmt range block handler finalizer).roles pos =
      rolesIn (pos + 1) block.body ++
        (handler.map (·.rescue (pos + 1 + sizes block.body))).elim [] Rescue.roles ++
        (finalizer.map (·.rescue (pos + 1 + sizes block.body + Handler.optionSize handler))).elim []
          Rescue.roles := by
  obtain ⟨_, body⟩ := block
  rcases handler with _ | ⟨_, _ | _, ⟨_, caught⟩⟩ <;> rcases finalizer with _ | ⟨_, final⟩ <;> rfl

end Equations

@[simp]
theorem Expr.map_optionRoles (role : Role) (pos : Nat) (expr : Option Expr) :
    (optionRoles role pos expr).map (·.1) = optionEvaluated pos expr := by
  cases expr <;> rfl

theorem Stmt.map_rolesIn {stmts : List Stmt}
    (h : ∀ stmt ∈ stmts, ∀ pos, (roles pos stmt).map (·.1) = stmt.evaluated pos) (pos : Nat) :
    (rolesIn pos stmts).map (·.1) = evaluatedIn pos stmts := by
  induction stmts generalizing pos with
  | nil => rfl
  | cons stmt stmts ih =>
    obtain ⟨hstmt, hstmts⟩ := List.forall_mem_cons.1 h
    rw [rolesIn, evaluatedIn, List.map_append, hstmt, ih hstmts]

theorem Rescue.map_roles {rescue : Option Rescue}
    (h : ∀ part ∈ rescue, ∀ stmt ∈ Rescue.stmts part, ∀ pos,
      (Stmt.roles pos stmt).map (·.1) = stmt.evaluated pos) :
    (rescue.elim [] Rescue.roles).map (·.1) = rescue.elim [] Rescue.evaluated := by
  cases rescue with
  | none => rfl
  | some rescue =>
    rw [Option.elim_some, Option.elim_some, roles, evaluated, List.map_append,
      Stmt.map_rolesIn (h rescue rfl)]
    cases rescue.parameter <;> rfl

theorem Clause.map_roles {clauses : List Clause}
    (h : ∀ clause ∈ clauses, ∀ stmt ∈ Clause.body clause, ∀ pos,
      (Stmt.roles pos stmt).map (·.1) = stmt.evaluated pos) (pos : Nat) :
    (roles pos clauses).map (·.1) = evaluated pos clauses := by
  induction clauses generalizing pos with
  | nil => rfl
  | cons clause clauses ih =>
    obtain ⟨range, test, body⟩ := clause
    obtain ⟨hclause, hclauses⟩ := List.forall_mem_cons.1 h
    simp [roles, evaluated, ih hclauses, Stmt.map_rolesIn hclause]

theorem Stmt.map_roles (stmt : Stmt) : ∀ pos, (stmt.roles pos).map (·.1) = stmt.evaluated pos := by
  induction stmt using Stmt.induction with
  | expression | declaration | function | debugger | jump | returnStmt | throwStmt | empty
  | withStmt => exact fun pos => rfl
  | ifStmt range test body orElse ihBody ihElse =>
    intro pos
    cases orElse with
    | none => simp [roles, evaluated, ihBody]
    | some orElse => simp [roles, evaluated, ihBody, ihElse orElse rfl]
  | whileStmt range test body ih => exact fun pos => congrArg _ (ih _)
  | doStmt range body test ih =>
    intro pos
    simp [roles, evaluated, ih]
  | forStmt range init test update body ihInit ih =>
    intro pos
    cases init with
    | none => cases test <;> simp [roles, evaluated, ih]
    | some init => cases test <;> simp [roles, evaluated, ih, ihInit init rfl]
  | forEach range kind left right body ih =>
    intro pos
    simp [roles, evaluated, ih]
  | tryStmt range block handler finalizer ihBlock ihHandler ihFinalizer =>
    intro pos
    rw [roles_tryStmt, evaluated_tryStmt, List.map_append, List.map_append, map_rolesIn ihBlock,
      Rescue.map_roles (Handler.forall_rescue ihHandler _),
      Rescue.map_roles (Block.forall_rescue ihFinalizer _)]
  | switchStmt range discriminant clauses ih =>
    intro pos
    simp [roles, evaluated, Clause.map_roles ih]
  | block range body ih => exact fun pos => map_rolesIn ih _
  | labeled range label body ih => exact fun pos => ih _

namespace Body

variable {body : Body} {element : Element} {role role' : Role}

theorem map_roles (body : Body) : body.roles.map (·.1) = body.evaluated :=
  Stmt.map_rolesIn (fun stmt _ => stmt.map_roles) body.position

theorem exists_role (h : element ∈ body.evaluated) : ∃ role, (element, role) ∈ body.roles := by
  rw [← map_roles] at h
  obtain ⟨⟨_, role⟩, hm, rfl⟩ := List.mem_map.1 h
  exact ⟨role, hm⟩

theorem mem_evaluated_of_role (h : (element, role) ∈ body.roles) : element ∈ body.evaluated := by
  rw [← map_roles]
  exact List.mem_map_of_mem h

theorem role_unique (h : (element, role) ∈ body.roles) (h' : (element, role') ∈ body.roles) :
    role = role' := by
  have hn : (body.roles.map (·.1)).Nodup := body.map_roles ▸ .of_map _ body.evaluated_nodup
  exact congrArg (·.2) (List.inj_on_of_nodup_map hn h h' rfl)

theorem mem_conditions :
    element ∈ body.conditions ↔ ∃ role, (element, role) ∈ body.roles ∧ role.decides = true := by
  simp [conditions]

theorem mem_guards :
    element ∈ body.guards ↔ ∃ role, (element, role) ∈ body.roles ∧ role.standsAlone = true := by
  simp [guards]

end Body

/-- A statement has the role of its kind, or it is the left side of a loop over a subject. -/
def Role.Fits (isLeft : Stmt → Prop) : Element × Role → Prop
  | (⟨_, .expression _⟩, role) => role.decides = true ∨ role = .plain
  | (⟨_, .statement stmt⟩, role) => role = .guard ∧ isLeft stmt ∨ role = .ofStmt stmt

variable {isLeft : Stmt → Prop}

theorem Expr.optionRoles_fit {role : Role} (hr : role.decides = true ∨ role = .plain) (pos : Nat)
    (expr : Option Expr) : ∀ pair ∈ optionRoles role pos expr, Role.Fits isLeft pair := by
  cases expr with
  | none => exact List.forall_mem_nil _
  | some expr => exact List.forall_mem_singleton.2 hr

theorem Stmt.rolesIn_fit {stmts : List Stmt}
    (h : ∀ stmt ∈ stmts, ∀ pos, ∀ pair ∈ Stmt.roles pos stmt, Role.Fits isLeft pair) (pos : Nat) :
    ∀ pair ∈ rolesIn pos stmts, Role.Fits isLeft pair := by
  induction stmts generalizing pos with
  | nil => exact List.forall_mem_nil _
  | cons stmt stmts ih =>
    obtain ⟨hstmt, hstmts⟩ := List.forall_mem_cons.1 h
    exact List.forall_mem_append.2 ⟨hstmt pos, ih hstmts _⟩

theorem Clause.roles_fit {clauses : List Clause}
    (h : ∀ clause ∈ clauses, ∀ stmt ∈ Clause.body clause, ∀ pos, ∀ pair ∈ Stmt.roles pos stmt,
      Role.Fits isLeft pair) (pos : Nat) :
    ∀ pair ∈ roles pos clauses, Role.Fits isLeft pair := by
  induction clauses generalizing pos with
  | nil => exact List.forall_mem_nil _
  | cons clause clauses ih =>
    obtain ⟨range, test, body⟩ := clause
    obtain ⟨hclause, hclauses⟩ := List.forall_mem_cons.1 h
    have htest : ∀ pair ∈ Expr.optionRoles .guard pos test, Role.Fits isLeft pair :=
      Expr.optionRoles_fit (.inl rfl) pos test
    exact List.forall_mem_append.2
      ⟨List.forall_mem_append.2 ⟨htest, Stmt.rolesIn_fit hclause _⟩, ih hclauses _⟩

/-- The left sides of loops over a subject are as they are known to be. -/
theorem Stmt.roles_fit {property : Piece → Prop} {stmt : Stmt}
    (hl : ∀ range kind left right body,
      property (.statement (.forEach range kind left right body)) → isLeft left)
    (h : Upholds property stmt) : ∀ pos, ∀ pair ∈ stmt.roles pos, Role.Fits isLeft pair := by
  induction h with
  | expression => exact fun pos => List.forall_mem_singleton.2 (.inr rfl)
  | declaration | function | debugger | jump | returnStmt | throwStmt =>
    exact fun pos => List.forall_mem_singleton.2 (.inr rfl)
  | empty | withStmt => exact fun pos => List.forall_mem_nil _
  | @ifStmt range test body orElse _ _ _ ihBody ihElse =>
    intro pos
    rw [roles_ifStmt, List.cons_append, List.forall_mem_cons, List.forall_mem_append]
    refine ⟨.inl rfl, ihBody _, ?_⟩
    cases orElse with
    | none => exact List.forall_mem_nil _
    | some orElse => exact ihElse orElse rfl _
  | whileStmt _ _ ih => exact fun pos => List.forall_mem_cons.2 ⟨.inl rfl, ih _⟩
  | doStmt _ _ ih =>
    exact fun pos => List.forall_mem_append.2 ⟨ih _, List.forall_mem_singleton.2 (.inl rfl)⟩
  | @forStmt range init test update body _ _ _ ihInit ih =>
    intro pos
    simp only [roles_forStmt, List.forall_mem_append]
    refine ⟨⟨⟨⟨?_, ?_⟩, Expr.optionRoles_fit (.inl rfl) _ _⟩, ih _⟩,
      Expr.optionRoles_fit (.inr rfl) _ _⟩
    · cases test with
      | none => exact List.forall_mem_singleton.2 (.inr rfl)
      | some test => exact List.forall_mem_nil _
    · cases init with
      | none => exact List.forall_mem_nil _
      | some init => exact ihInit init rfl _
  | forEach hself _ ih =>
    intro pos
    exact List.forall_mem_cons.2
      ⟨.inr rfl, List.forall_mem_cons.2 ⟨.inl ⟨rfl, hl _ _ _ _ _ hself⟩, ih _⟩⟩
  | @tryStmt range tried handler finalizer _ _ _ _ _ _ _ ihBlock ihHandler ihFinalizer =>
    intro pos
    simp only [roles_tryStmt, List.forall_mem_append]
    refine ⟨⟨rolesIn_fit ihBlock _, ?_⟩, ?_⟩
    · rcases handler with _ | ⟨_, parameter, caught⟩
      · exact List.forall_mem_nil _
      · apply List.forall_mem_append.2 ⟨_, rolesIn_fit (ihHandler _ rfl) _⟩
        cases parameter with
        | none => exact List.forall_mem_nil _
        | some parameter => exact List.forall_mem_singleton.2 (.inr rfl)
    · rcases finalizer with _ | final
      · exact List.forall_mem_nil _
      · exact rolesIn_fit (ihFinalizer _ rfl) _
  | switchStmt _ _ _ ih =>
    exact fun pos => List.forall_mem_cons.2 ⟨.inr rfl, Clause.roles_fit ih _⟩
  | block _ _ ih => exact fun pos => rolesIn_fit ih _
  | labeled _ _ ih => exact fun pos => ih _

def Stmt.isJump : Stmt → Bool
  | .jump .. | .returnStmt .. | .throwStmt .. => true
  | _ => false

def Stmt.isReturn : Stmt → Bool
  | .returnStmt .. => true
  | _ => false

def Element.isJump (element : Element) : Bool :=
  match element.node with
  | .statement stmt => stmt.isJump
  | .expression _ => false

def Element.isReturn (element : Element) : Bool :=
  match element.node with
  | .statement stmt => stmt.isReturn
  | .expression _ => false

def Stmt.isEndless : Stmt → Bool
  | .forStmt _ _ none _ _ => true
  | _ => false

def Element.isEndless (element : Element) : Bool :=
  match element.node with
  | .statement stmt => stmt.isEndless
  | .expression _ => false

namespace Body

variable {body : Body} {element : Element} {role : Role}

theorem roles_fit (body : Body) : ∀ pair ∈ body.roles, Role.Fits (fun _ => True) pair := by
  apply Stmt.rolesIn_fit
  intro stmt hm
  have hupholds : Upholds (fun _ => True) stmt := stmt.upholds fun _ _ => trivial
  exact Stmt.roles_fit (fun _ _ _ _ _ => id) hupholds

theorem role_of_isJump (h : (element, role) ∈ body.roles) (hj : element.isJump = true)
    (hd : role.decides = false) :
    role = .jump ∧ element.isReturn = false ∨ role = .leave := by
  have hfits := body.roles_fit _ h
  obtain ⟨position, node⟩ := element
  cases node with
  | expression => cases hj
  | statement stmt =>
    rcases hfits with ⟨rfl, -⟩ | rfl
    · cases hd
    · cases stmt with
      | jump | throwStmt => exact .inl ⟨rfl, rfl⟩
      | returnStmt => exact .inr rfl
      | _ => cases hj

theorem isEndless_of_role (h : (element, .endless) ∈ body.roles) : element.isEndless = true := by
  have hfits := body.roles_fit _ h
  obtain ⟨position, node⟩ := element
  cases node with
  | expression => rcases hfits with hd | hr <;> contradiction
  | statement stmt =>
    rcases hfits with ⟨hr, -⟩ | hr
    · cases hr
    · cases stmt with
      | forStmt range init test update body =>
        cases test with
        | none => rfl
        | some test => cases hr
      | _ => cases hr

/-- The left side of a loop over a subject is no jump if the loop has a plain head. -/
theorem isJump_of_mem_conditions (hp : ∀ stmt ∈ body.stmts, (Piece.statement stmt).PlainHeads) :
    ∀ element ∈ body.conditions, element.isJump = false := by
  intro element hm
  obtain ⟨role, hr, hd⟩ := mem_conditions.1 hm
  have hleft : ∀ range kind left right body,
      Piece.HasPlainHead (.statement (.forEach range kind left right body)) →
        left.isHead = true := fun _ _ _ _ _ h => h
  have hfits := Stmt.rolesIn_fit (fun stmt hs => Stmt.roles_fit hleft (stmt.upholds (hp stmt hs)))
    body.position _ hr
  obtain ⟨position, node⟩ := element
  cases node with
  | expression => rfl
  | statement stmt =>
    rcases hfits with ⟨-, hhead⟩ | rfl
    · cases stmt with
      | expression | declaration => rfl
      | _ => cases hhead
    · cases stmt with
      | jump | returnStmt | throwStmt => cases hd
      | _ => rfl

end Body

end FlowLint
