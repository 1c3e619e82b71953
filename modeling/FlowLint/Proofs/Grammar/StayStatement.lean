import FlowLint.Grammar.Script
import FlowLint.Proofs.Grammar.StayExpression

namespace FlowLint
set_option autoImplicit true

namespace Grammar.Stays

open TokenReader (Stays)

variable {word : InWord} {g : Grammar} {within outer : List Bracket} {left : List Token}
  {stop : Nat} {noIn : Bool}

theorem kind_of_declarationKind? {kind : TokenKind} (h : kind.declarationKind? = some declared) :
    kind.Plain ∧ kind ≠ .keyword .in := by
  unfold TokenKind.declarationKind? at h
  split at h
  case h_4 => cases h
  all_goals exact ⟨TokenKind.plain_keyword _, nofun⟩

theorem kind_of_isOf {token : Token} (h : token.isOf = true) : token.kind = .name :=
  beq_iff_eq.1 (Bool.and_eq_true_iff.1 h).1

theorem emptyStatement (h : Closes within left)
    (hk : (word.current left).kind = .symbol .semicolon) :
    Grammar.emptyStatement.Stays word within left stop :=
  .bump h hk nofun nofun fun _ _ h => .rangeFrom (.pure h _)

theorem debuggerStatement (h : Closes within left)
    (hk : (word.current left).kind = .keyword .debugger) :
    Grammar.debuggerStatement.Stays word within left stop :=
  .bump h hk nofun nofun fun _ _ h => .semicolon h fun _ _ h => .rangeFrom (.pure h _)

theorem jumpLabel (h : Closes within left) : Grammar.jumpLabel.Stays word within left stop :=
  .peek (.ite (fun _ => .map (.identifier h)) fun _ => .pure h _)

theorem jumpStatement (kind : JumpKind) (h : Closes within left)
    (hk : (word.current left).kind = .keyword keyword) (hin : keyword ≠ .in) :
    (Grammar.jumpStatement kind).Stays word within left stop := by
  apply Stays.bump_plain h (hk ▸ TokenKind.plain_keyword keyword)
  · exact fun he => absurd (TokenKind.keyword.inj (hk.symm.trans he)) hin
  intro left stop h
  apply Stays.bind (jumpLabel h)
  intro label left stop h
  exact .semicolon h fun _ _ h => .rangeFrom (.pure h _)

section Parts

variable (hg : g.Stays word) (h : Closes within left)
include hg h

theorem block : (Grammar.block g).Stays word within left stop := by
  apply Stays.symbol h (by nofun)
  intro _ left stop h
  apply Stays.bind (hg .statements (.brace :: within) left stop h ⟨_, rfl⟩)
  intro body left stop h
  exact .rangeFrom (.pure h _)

theorem blockStatement : (Grammar.blockStatement g).Stays word within left stop :=
  .bind (hg.block h) fun ⟨_, _⟩ _ _ h => .pure h _

theorem declarators (hn : noIn = false → within ≠ []) :
    (Grammar.declarators g noIn).Stays word within left stop := by
  apply Stays.bind (.identifier h)
  intro name left stop h
  apply Stays.eat_ite_bind h (by nofun) (by nofun)
  · exact fun left stop h => .map (hg (.assignment noIn) within left stop h hn)
  · exact .pure h _
  intro init left stop h
  apply Stays.rangeFrom
  apply Stays.eat h (by nofun) (by nofun)
  · intro left stop h
    exact .bind (hg (.declarators noIn) within left stop h hn) fun _ _ _ h => .pure h _
  · exact .pure h _

/-- The declarations or the expression in the head of a `for` leave the word alone in any place. -/
theorem forHead : (Grammar.forHead g).Stays word within left stop := by
  apply Stays.peek
  apply Stays.ite
  · exact fun _ => .pure h _
  · intro _
    split
    · next kind hkind =>
      obtain ⟨hplain, hin⟩ := kind_of_declarationKind? hkind
      apply Stays.bump_plain h hplain fun he => absurd he hin
      intro left stop h
      apply Stays.bind (hg (.declarators true) within left stop h nofun)
      intro names left stop h
      exact .rangeFrom (.pure h _)
    · exact .bind (hg (.expression true) within left stop h nofun) fun _ _ _ h => .pure h _

end Parts

section Head

variable (hg : g.Stays word) (start : Nat)
include hg

theorem forRest (init : Option Stmt) (h : Closes (.paren :: .brace :: outer) left) :
    (Grammar.forRest g start init).Stays word (.brace :: outer) left stop := by
  apply Stays.symbol h (by nofun)
  intro _ left stop h
  apply Stays.isAt
  apply Stays.ite_bind (m := .paren :: .brace :: outer)
  · exact fun _ => .pure h _
  · exact fun _ => .map (hg (.expression false) _ left stop h nofun)
  intro test left stop h
  apply Stays.symbol h (by nofun)
  intro _ left stop h
  apply Stays.isAt
  apply Stays.ite_bind (m := .paren :: .brace :: outer)
  · exact fun _ => .pure h _
  · exact fun _ => .map (hg (.expression false) _ left stop h nofun)
  intro update left stop h
  apply Stays.symbol h (by nofun)
  intro _ left stop h
  apply Stays.bind (hg .statement _ left stop h ⟨_, rfl⟩)
  intro body left stop h
  exact .rangeFrom (.pure h _)

theorem forEachRest (kind : EachKind) (first : Stmt) (right : Expr)
    (h : Closes (.paren :: .brace :: outer) left) :
    (Grammar.forEachRest g start kind first right).Stays word (.brace :: outer) left stop := by
  apply Stays.symbol h (by nofun)
  intro _ left stop h
  apply Stays.bind (hg .statement _ left stop h ⟨_, rfl⟩)
  intro body left stop h
  exact .rangeFrom (.pure h _)

end Head

section Braces

variable (hg : g.Stays word) (h : Closes (.brace :: outer) left)
include hg h

theorem declarationStatement (hk : (word.current left).kind = .keyword keyword)
    (kind : DeclarationKind) :
    (Grammar.declarationStatement g kind).Stays word (.brace :: outer) left stop := by
  apply Stays.bump h hk nofun nofun
  intro left stop h
  apply Stays.bind (hg (.declarators false) _ left stop h nofun)
  intro names left stop h
  exact .semicolon h fun _ _ h => .rangeFrom (.pure h _)

theorem functionStatement (hk : (word.current left).kind = .keyword .function) :
    (Grammar.functionStatement g).Stays word (.brace :: outer) left stop := by
  apply Stays.bump h hk nofun nofun
  intro left stop h
  apply Stays.bind (.identifier h)
  intro name left stop h
  apply Stays.bind (hg.parameterList h)
  intro parameters left stop h
  apply Stays.bind (hg.functionBody h)
  intro body left stop h
  exact .rangeFrom (.pure h _)

theorem ifStatement (hk : (word.current left).kind = .keyword .if) :
    (Grammar.ifStatement g).Stays word (.brace :: outer) left stop := by
  apply Stays.bump h hk nofun nofun
  intro left stop h
  apply Stays.bind (hg.parenthesized h)
  intro test left stop h
  apply Stays.bind (hg .statement _ left stop h ⟨_, rfl⟩)
  intro body left stop h
  apply Stays.eat_ite_bind (m := .brace :: outer) h (by nofun) (by nofun)
  · exact fun left stop h => .map (hg .statement _ left stop h ⟨_, rfl⟩)
  · exact .pure h _
  intro orElse left stop h
  exact .rangeFrom (.pure h _)

theorem whileStatement (hk : (word.current left).kind = .keyword .while) :
    (Grammar.whileStatement g).Stays word (.brace :: outer) left stop := by
  apply Stays.bump h hk nofun nofun
  intro left stop h
  apply Stays.bind (hg.parenthesized h)
  intro test left stop h
  apply Stays.bind (hg .statement _ left stop h ⟨_, rfl⟩)
  intro body left stop h
  exact .rangeFrom (.pure h _)

theorem doStatement (hk : (word.current left).kind = .keyword .do) :
    (Grammar.doStatement g).Stays word (.brace :: outer) left stop := by
  apply Stays.bump h hk nofun nofun
  intro left stop h
  apply Stays.bind (hg .statement _ left stop h ⟨_, rfl⟩)
  intro body left stop h
  apply Stays.keyword h (by nofun)
  intro _ left stop h
  apply Stays.bind (hg.parenthesized h)
  intro test left stop h
  apply Stays.eat h (by nofun) (by nofun)
  · exact fun _ _ h => .rangeFrom (.pure h _)
  · exact .rangeFrom (.pure h _)

theorem forStatement (hk : (word.current left).kind = .keyword .for) :
    (Grammar.forStatement g).Stays word (.brace :: outer) left stop := by
  apply Stays.bump h hk nofun nofun
  intro left stop h
  apply Stays.symbol h (by nofun)
  intro _ left stop h
  apply Stays.bind (hg.forHead h)
  intro head left stop h
  cases head with
  | none => exact hg.forRest _ none h
  | some first =>
    dsimp only
    apply Stays.eat h (by nofun) (by nofun)
    · intro left stop h
      apply Stays.bind (hg (.expression false) _ left stop h nofun)
      intro right left stop h
      exact hg.forEachRest _ _ _ _ h
    · apply Stays.peek
      apply Stays.ite
      · intro hof
        apply Stays.bump h (kind_of_isOf hof) nofun nofun
        intro left stop h
        apply Stays.bind (hg (.assignment false) _ left stop h nofun)
        intro right left stop h
        exact hg.forEachRest _ _ _ _ h
      · exact fun _ => hg.forRest _ (some first) h

theorem returnStatement (hk : (word.current left).kind = .keyword .return) :
    (Grammar.returnStatement g).Stays word (.brace :: outer) left stop := by
  apply Stays.bump h hk nofun nofun
  intro left stop h
  apply Stays.peek
  apply Stays.ite_bind (m := .brace :: outer)
  · exact fun _ => .pure h _
  · exact fun _ => .map (hg (.expression false) _ left stop h nofun)
  intro value left stop h
  exact .semicolon h fun _ _ h => .rangeFrom (.pure h _)

theorem throwStatement (hk : (word.current left).kind = .keyword .throw) :
    (Grammar.throwStatement g).Stays word (.brace :: outer) left stop := by
  apply Stays.bump h hk nofun nofun
  intro left stop h
  apply Stays.peek
  apply Stays.ite
  · exact fun _ => .throw _
  · intro _
    apply Stays.bind (hg (.expression false) _ left stop h nofun)
    intro value left stop h
    exact .semicolon h fun _ _ h => .rangeFrom (.pure h _)

theorem handlerParameter :
    (Grammar.handlerParameter g).Stays word (.brace :: outer) left stop := by
  apply Stays.eat h (by nofun) (by nofun)
  · intro left stop h
    apply Stays.bind (hg.primary h)
    intro parameter left stop h
    exact .symbol h nofun fun _ _ _ h => .pure h _
  · exact .pure h _

theorem handler : (Grammar.handler g).Stays word (.brace :: outer) left stop := by
  apply Stays.isAt
  apply Stays.ite
  · intro hk
    apply Stays.bump h (beq_iff_eq.1 hk) nofun nofun
    intro left stop h
    apply Stays.bind (hg.handlerParameter h)
    intro parameter left stop h
    apply Stays.bind (hg.block h)
    intro body left stop h
    exact .rangeFrom (.pure h _)
  · exact fun _ => .pure h _

theorem finalizer : (Grammar.finalizer g).Stays word (.brace :: outer) left stop :=
  .eat h nofun nofun (fun _ _ h => .map (hg.block h)) (.pure h _)

theorem tryStatement (hk : (word.current left).kind = .keyword .try) :
    (Grammar.tryStatement g).Stays word (.brace :: outer) left stop := by
  apply Stays.bump h hk nofun nofun
  intro left stop h
  apply Stays.bind (hg.block h)
  intro body left stop h
  apply Stays.bind (hg.handler h)
  intro handler left stop h
  apply Stays.bind (hg.finalizer h)
  intro finalizer left stop h
  exact .ite (fun _ => .unexpected _) fun _ => .rangeFrom (.pure h _)

theorem clauseTest : (Grammar.clauseTest g).Stays word (.brace :: outer) left stop := by
  apply Stays.eat h (by nofun) (by nofun)
  · exact fun left stop h => .map (hg (.expression false) _ left stop h nofun)
  · exact .eat h nofun nofun (fun _ _ h => .pure h _) (.unexpected _)

theorem clauses : (Grammar.clauses g).Stays word outer left stop := by
  apply Stays.eat h (by nofun) (by nofun)
  · exact fun _ _ h => .pure h _
  · apply Stays.peek
    apply Stays.bind (hg.clauseTest h)
    intro test left stop h
    apply Stays.symbol h (by nofun)
    intro _ left stop h
    apply Stays.bind (hg .clauseBody (.brace :: outer) left stop h ⟨_, rfl⟩)
    intro body left stop h
    apply Stays.rangeFrom
    exact .bind (hg .clauses (.brace :: outer) left stop h ⟨_, rfl⟩) fun _ _ _ h => .pure h _

theorem switchStatement (hk : (word.current left).kind = .keyword .switch) :
    (Grammar.switchStatement g).Stays word (.brace :: outer) left stop := by
  apply Stays.bump h hk nofun nofun
  intro left stop h
  apply Stays.bind (hg.parenthesized h)
  intro discriminant left stop h
  apply Stays.symbol h (by nofun)
  intro _ left stop h
  apply Stays.bind (hg .clauses (.brace :: .brace :: outer) left stop h ⟨_, rfl⟩)
  intro clauses left stop h
  exact .rangeFrom (.pure h _)

theorem withStatement (hk : (word.current left).kind = .keyword .with) :
    (Grammar.withStatement g).Stays word (.brace :: outer) left stop := by
  apply Stays.bump h hk nofun nofun
  intro left stop h
  apply Stays.bind (hg.parenthesized h)
  intro object left stop h
  apply Stays.bind (hg .statement _ left stop h ⟨_, rfl⟩)
  intro body left stop h
  exact .rangeFrom (.pure h _)

theorem labeledStatement : (Grammar.labeledStatement g).Stays word (.brace :: outer) left stop := by
  apply Stays.bind (.identifier h)
  intro label left stop h
  apply Stays.symbol h (by nofun)
  intro _ left stop h
  apply Stays.bind (hg .statement _ left stop h ⟨_, rfl⟩)
  intro body left stop h
  exact .rangeFrom (.pure h _)

theorem expressionStatement :
    (Grammar.expressionStatement g).Stays word (.brace :: outer) left stop := by
  apply Stays.peek
  apply Stays.bind (hg.expression h nofun)
  intro value left stop h
  exact .semicolon h fun _ _ h => .rangeFrom (.pure h _)

theorem statement : (Grammar.statement g).Stays word (.brace :: outer) left stop := by
  apply Stays.peek
  split
  · exact hg.blockStatement h
  · next hk => exact emptyStatement h hk
  · next hk => exact hg.declarationStatement h hk _
  · next hk => exact hg.declarationStatement h hk _
  · next hk => exact hg.declarationStatement h hk _
  · next hk => exact hg.functionStatement h hk
  · next hk => exact hg.ifStatement h hk
  · next hk => exact hg.whileStatement h hk
  · next hk => exact hg.doStatement h hk
  · next hk => exact hg.forStatement h hk
  · next hk => exact jumpStatement .break h hk nofun
  · next hk => exact jumpStatement .continue h hk nofun
  · next hk => exact hg.returnStatement h hk
  · next hk => exact hg.throwStatement h hk
  · next hk => exact hg.tryStatement h hk
  · next hk => exact hg.switchStatement h hk
  · next hk => exact hg.withStatement h hk
  · next hk => exact debuggerStatement h hk
  · next hk =>
    obtain ⟨rest, hleft⟩ := h.exists_cons fun hin => nomatch hk.symm.trans hin
    have hlabeled : (Grammar.labeledStatement g).Stays word (.brace :: outer) left stop :=
      hg.labeledStatement h
    have hexpression : (Grammar.expressionStatement g).Stays word (.brace :: outer) left stop :=
      hg.expressionStatement h
    rw [hleft] at hlabeled hexpression ⊢
    exact Stays.nextKind hlabeled hexpression
  · exact hg.expressionStatement h

theorem statements : (Grammar.statements g).Stays word outer left stop := by
  apply Stays.eat h (by nofun) (by nofun)
  · exact fun _ _ h => .pure h _
  · apply Stays.isAt
    apply Stays.ite
    · exact fun _ => .unexpected _
    · intro _
      apply Stays.bind (hg.statement h)
      intro stmt left stop h
      exact .bind (hg .statements (.brace :: outer) left stop h ⟨_, rfl⟩) fun _ _ _ h => .pure h _

theorem clauseBody : (Grammar.clauseBody g).Stays word (.brace :: outer) left stop := by
  apply Stays.peek
  apply Stays.ite
  · exact fun _ => .pure h _
  · intro _
    apply Stays.bind (hg.statement h)
    intro stmt left stop h
    exact .bind (hg .clauseBody (.brace :: outer) left stop h ⟨_, rfl⟩) fun _ _ _ h => .pure h _

end Braces

theorem parameters (hg : g.Stays word) (h : Closes (.paren :: outer) left) :
    (Grammar.parameters g).Stays word outer left stop := by
  apply Stays.eat h (by nofun) (by nofun)
  · exact fun _ _ h => .pure h _
  · apply Stays.bind (.identifier h)
    intro parameter left stop h
    have hmore {left : List Token} {stop : Nat} (h : Closes (.paren :: outer) left) :
        (g .parameters >>= fun others => pure (parameter :: others)).Stays word outer left stop :=
      .bind (hg .parameters (.paren :: outer) left stop h ⟨_, rfl⟩) fun _ _ _ h => .pure h _
    apply Stays.isAt
    apply Stays.ite
    · exact fun _ => .symbol h nofun fun _ _ _ h => hmore h
    · exact fun _ => hmore h

/-- Where the parts of a production stay in front of the word, it does as a whole. -/
theorem read (hg : g.Stays word) : Grammar.Stays word (Grammar.read g) := by
  intro α p within left stop h hp
  cases p with
  | program => exact hp.elim
  | statement =>
    obtain ⟨outer, rfl⟩ := hp
    exact hg.statement h
  | statements =>
    obtain ⟨outer, rfl⟩ := hp
    exact hg.statements h
  | clauses =>
    obtain ⟨outer, rfl⟩ := hp
    exact hg.clauses h
  | clauseBody =>
    obtain ⟨outer, rfl⟩ := hp
    exact hg.clauseBody h
  | declarators noIn => exact hg.declarators h hp
  | parameters =>
    obtain ⟨outer, rfl⟩ := hp
    exact hg.parameters h
  | expression noIn => exact hg.expression h hp
  | commaParts noIn => exact hg.commaParts h hp
  | assignment noIn => exact hg.assignment h hp
  | binary least noIn => exact hg.binary h hp least
  | binaryRest least noIn expr => exact hg.binaryRest h hp least expr
  | unary => exact hg.unary h
  | suffixes target => exact hg.suffixes h target
  | members target => exact hg.members h target
  | construction => exact hg.construction h hp
  | elements close => exact hg.elements h hp

end Grammar.Stays

/-- Whatever the bound, reading a production stays in front of the word where it fits. -/
theorem Grammar.stays_upTo (word : InWord) (bound : Nat) :
    Grammar.Stays word (Grammar.upTo bound) := by
  induction bound with
  | zero => exact fun _ _ _ _ _ _ => .unexpected _
  | succ bound ih => exact ih.read

end FlowLint
