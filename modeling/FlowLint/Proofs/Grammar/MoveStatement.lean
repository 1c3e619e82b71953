import FlowLint.Proofs.Grammar.MoveExpression

namespace FlowLint
set_option autoImplicit true

namespace Grammar.Moved

open TokenReader (Moves)

variable {p : Placement} {others : List Token} {last : Token} {g : Grammar}

theorem emptyStatement :
    Moves p others last (Stmt.relocate p.place) Grammar.emptyStatement Grammar.emptyStatement :=
  .bump fun _ _ => .rangeFrom rfl fun range => .pure (by rw [Stmt.relocate])

theorem debuggerStatement :
    Moves p others last (Stmt.relocate p.place) Grammar.debuggerStatement
      Grammar.debuggerStatement :=
  .bump fun _ _ => .semicolon (.rangeFrom rfl fun range => .pure (by rw [Stmt.relocate]))

theorem jumpLabel :
    Moves p others last (Option.map (Identifier.relocate p.place)) Grammar.jumpLabel
      Grammar.jumpLabel :=
  .peek fun _ _ => .ite (.map .identifier fun _ => rfl) (.pure rfl)

theorem jumpStatement (kind : JumpKind) :
    Moves p others last (Stmt.relocate p.place) (Grammar.jumpStatement kind)
      (Grammar.jumpStatement kind) := by
  apply Moves.bump
  intro token _
  apply Moves.bind jumpLabel
  intro label
  exact .semicolon (.rangeFrom rfl fun range => .pure (by rw [Stmt.relocate]))

section Parts

variable (h : g.Moved p others last)
include h

theorem block :
    Moves p others last (Block.relocate p.place) (Grammar.block g) (Grammar.block g) := by
  apply Moves.symbol
  intro token
  apply Moves.bind (h .statements)
  intro body
  exact .rangeFrom rfl fun range => .pure (by rw [Block.relocate]; rfl)

theorem blockStatement :
    Moves p others last (Stmt.relocate p.place) (Grammar.blockStatement g)
      (Grammar.blockStatement g) := by
  apply Moves.bind h.block
  rintro ⟨range, body⟩
  exact .pure (by rw [Stmt.relocate])

theorem declarators (noIn : Bool) :
    Moves p others last (Declarator.relocates p.place) (Grammar.declarators g noIn)
      (Grammar.declarators g noIn) := by
  apply Moves.bind .identifier
  intro name
  apply Moves.eat
  intro _
  apply Moves.ite_bind (f := Expr.optionRelocate p.place)
  · exact .map (h (.assignment noIn)) fun _ => by rw [Expr.optionRelocate]; rfl
  · exact .pure (by rw [Expr.optionRelocate])
  intro init
  apply Moves.rangeFrom rfl
  intro range
  apply Moves.eat
  intro _
  apply Moves.ite
  · apply Moves.bind (h (.declarators noIn))
    intro rest
    exact .pure (by rw [Declarator.relocates]; rfl)
  · exact .pure (by rw [Declarator.relocates, Declarator.relocates])

theorem declarationStatement (kind : DeclarationKind) :
    Moves p others last (Stmt.relocate p.place) (Grammar.declarationStatement g kind)
      (Grammar.declarationStatement g kind) := by
  apply Moves.bump
  intro token _
  apply Moves.bind (h (.declarators false))
  intro names
  exact .semicolon (.rangeFrom rfl fun range => .pure (by rw [Stmt.relocate]; rfl))

theorem functionStatement :
    Moves p others last (Stmt.relocate p.place) (Grammar.functionStatement g)
      (Grammar.functionStatement g) := by
  apply Moves.bump
  intro token _
  apply Moves.bind .identifier
  intro name
  apply Moves.bind h.parameterList
  intro parameters
  apply Moves.bind h.functionBody
  intro body
  exact .rangeFrom rfl fun range => .pure (by rw [Stmt.relocate])

theorem ifStatement :
    Moves p others last (Stmt.relocate p.place) (Grammar.ifStatement g)
      (Grammar.ifStatement g) := by
  apply Moves.bump
  intro token _
  apply Moves.bind h.parenthesized
  intro test
  apply Moves.bind (h .statement)
  intro body
  apply Moves.eat
  intro eaten
  apply Moves.ite_bind (f := Stmt.optionRelocate p.place)
  · exact .map (h .statement) fun _ => by rw [Stmt.optionRelocate]; rfl
  · exact .pure (by rw [Stmt.optionRelocate])
  intro orElse
  exact .rangeFrom rfl fun range => .pure (by rw [Stmt.relocate]; rfl)

theorem whileStatement :
    Moves p others last (Stmt.relocate p.place) (Grammar.whileStatement g)
      (Grammar.whileStatement g) := by
  apply Moves.bump
  intro token _
  apply Moves.bind h.parenthesized
  intro test
  apply Moves.bind (h .statement)
  intro body
  exact .rangeFrom rfl fun range => .pure (by rw [Stmt.relocate]; rfl)

theorem doStatement :
    Moves p others last (Stmt.relocate p.place) (Grammar.doStatement g)
      (Grammar.doStatement g) := by
  apply Moves.bump
  intro token _
  apply Moves.bind (h .statement)
  intro body
  apply Moves.keyword
  intro _
  apply Moves.bind h.parenthesized
  intro test
  apply Moves.eat
  intro _
  exact .rangeFrom rfl fun range => .pure (by rw [Stmt.relocate]; rfl)

theorem option (noIn : Bool) :
    Moves p others last (Expr.optionRelocate p.place) (some <$> g (.expression noIn))
      (some <$> g (.expression noIn)) :=
  .map (h (.expression noIn)) fun _ => by rw [Expr.optionRelocate]; rfl

theorem forHead :
    Moves p others last (Stmt.optionRelocate p.place) (Grammar.forHead g) (Grammar.forHead g) := by
  apply Moves.peek
  intro token _
  dsimp only [Token.relocate]
  apply Moves.ite
  · exact .pure (by rw [Stmt.optionRelocate])
  · split
    · apply Moves.bump
      intro token _
      apply Moves.bind (h (.declarators true))
      intro names
      exact .rangeFrom rfl fun range => .pure (by rw [Stmt.optionRelocate, Stmt.relocate]; rfl)
    · apply Moves.bind (h (.expression true))
      intro value
      exact .pure (by
        rw [Stmt.optionRelocate, Stmt.relocate, ← value.range_relocate (f := p.place)]
        rfl)

theorem forRest (start : Nat) (init : Option Stmt) :
    Moves p others last (Stmt.relocate p.place) (Grammar.forRest g start init)
      (Grammar.forRest g (p.start start) (Stmt.optionRelocate p.place init)) := by
  have hnone : Moves p others last (Expr.optionRelocate p.place) (pure none) (pure none) :=
    .pure (by rw [Expr.optionRelocate])
  apply Moves.symbol
  intro _
  apply Moves.isAt
  intro _
  apply Moves.ite_bind hnone (h.option false)
  intro test
  apply Moves.symbol
  intro _
  apply Moves.isAt
  intro _
  apply Moves.ite_bind hnone (h.option false)
  intro update
  apply Moves.symbol
  intro _
  apply Moves.bind (h .statement)
  intro body
  exact .rangeFrom rfl fun range => .pure (by rw [Stmt.relocate]; rfl)

theorem forEachRest (start : Nat) (kind : EachKind) (left : Stmt) (right : Expr) :
    Moves p others last (Stmt.relocate p.place) (Grammar.forEachRest g start kind left right)
      (Grammar.forEachRest g (p.start start) kind (left.relocate p.place)
        (right.relocate p.place)) := by
  apply Moves.symbol
  intro _
  apply Moves.bind (h .statement)
  intro body
  exact .rangeFrom rfl fun range => .pure (by rw [Stmt.relocate]; rfl)

theorem forStatement :
    Moves p others last (Stmt.relocate p.place) (Grammar.forStatement g)
      (Grammar.forStatement g) := by
  apply Moves.bump
  intro token _
  apply Moves.symbol
  intro _
  apply Moves.bind h.forHead
  intro head
  cases head with
  | none =>
    have hrest := h.forRest token.range.start none
    rw [Stmt.optionRelocate] at hrest ⊢
    exact hrest
  | some left =>
    have hrest := h.forRest token.range.start (some left)
    rw [Stmt.optionRelocate] at hrest ⊢
    apply Moves.eat
    intro _
    apply Moves.ite
    · apply Moves.bind (h (.expression false))
      intro right
      exact h.forEachRest token.range.start .keys left right
    · apply Moves.peek
      intro _ _
      apply Moves.ite
      · apply Moves.bump
        intro _ _
        apply Moves.bind (h (.assignment false))
        intro right
        exact h.forEachRest token.range.start .items left right
      · exact hrest

theorem returnStatement :
    Moves p others last (Stmt.relocate p.place) (Grammar.returnStatement g)
      (Grammar.returnStatement g) := by
  apply Moves.bump
  intro token _
  apply Moves.peek
  intro _ _
  apply Moves.ite_bind (f := Expr.optionRelocate p.place)
  · exact .pure (by rw [Expr.optionRelocate])
  · exact h.option false
  intro value
  exact .semicolon (.rangeFrom rfl fun range => .pure (by rw [Stmt.relocate]))

theorem throwStatement :
    Moves p others last (Stmt.relocate p.place) (Grammar.throwStatement g)
      (Grammar.throwStatement g) := by
  apply Moves.bump
  intro token _
  apply Moves.peek
  intro next hm
  apply Moves.ite
  · exact .throw hm rfl
  · apply Moves.bind (h (.expression false))
    intro value
    exact .semicolon (.rangeFrom rfl fun range => .pure (by rw [Stmt.relocate]; rfl))

theorem handlerParameter :
    Moves p others last (Expr.optionRelocate p.place) (Grammar.handlerParameter g)
      (Grammar.handlerParameter g) := by
  apply Moves.eat
  intro _
  apply Moves.ite
  · apply Moves.bind h.primary
    intro parameter
    exact .symbol fun _ => .pure (by rw [Expr.optionRelocate])
  · exact .pure (by rw [Expr.optionRelocate])

theorem handler :
    Moves p others last (Handler.optionRelocate p.place) (Grammar.handler g)
      (Grammar.handler g) := by
  apply Moves.isAt
  intro _
  apply Moves.ite
  · apply Moves.bump
    intro token _
    apply Moves.bind h.handlerParameter
    intro parameter
    apply Moves.bind h.block
    intro body
    exact .rangeFrom rfl fun range => .pure (by rw [Handler.optionRelocate])
  · exact .pure (by rw [Handler.optionRelocate])

theorem finalizer :
    Moves p others last (Block.optionRelocate p.place) (Grammar.finalizer g)
      (Grammar.finalizer g) := by
  apply Moves.eat
  intro _
  apply Moves.ite
  · exact .map h.block fun _ => by rw [Block.optionRelocate]
  · exact .pure (by rw [Block.optionRelocate])

theorem tryStatement :
    Moves p others last (Stmt.relocate p.place) (Grammar.tryStatement g)
      (Grammar.tryStatement g) := by
  apply Moves.bump
  intro token _
  apply Moves.bind h.block
  intro body
  apply Moves.bind h.handler
  intro handler
  apply Moves.bind h.finalizer
  intro finalizer
  rw [Handler.isNone_optionRelocate, Block.isNone_optionRelocate]
  apply Moves.ite
  · exact .unexpected _
  · exact .rangeFrom rfl fun range => .pure (by rw [Stmt.relocate])

theorem clauseTest :
    Moves p others last (Expr.optionRelocate p.place) (Grammar.clauseTest g)
      (Grammar.clauseTest g) := by
  apply Moves.eat
  intro _
  apply Moves.ite
  · exact h.option false
  · apply Moves.eat
    intro _
    apply Moves.ite
    · exact .pure (by rw [Expr.optionRelocate])
    · exact .unexpected _

theorem clauses :
    Moves p others last (Clause.relocates p.place) (Grammar.clauses g) (Grammar.clauses g) := by
  apply Moves.eat
  intro _
  apply Moves.ite
  · exact .pure (by rw [Clause.relocates])
  · apply Moves.peek
    intro token _
    apply Moves.bind h.clauseTest
    intro test
    apply Moves.symbol
    intro _
    apply Moves.bind (h .clauseBody)
    intro body
    apply Moves.rangeFrom rfl
    intro range
    apply Moves.bind (h .clauses)
    intro others
    exact .pure (by rw [Clause.relocates]; rfl)

theorem switchStatement :
    Moves p others last (Stmt.relocate p.place) (Grammar.switchStatement g)
      (Grammar.switchStatement g) := by
  apply Moves.bump
  intro token _
  apply Moves.bind h.parenthesized
  intro discriminant
  apply Moves.symbol
  intro _
  apply Moves.bind (h .clauses)
  intro clauses
  exact .rangeFrom rfl fun range => .pure (by rw [Stmt.relocate]; rfl)

theorem withStatement :
    Moves p others last (Stmt.relocate p.place) (Grammar.withStatement g)
      (Grammar.withStatement g) := by
  apply Moves.bump
  intro token _
  apply Moves.bind h.parenthesized
  intro object
  apply Moves.bind (h .statement)
  intro body
  exact .rangeFrom rfl fun range => .pure (by rw [Stmt.relocate]; rfl)

theorem labeledStatement :
    Moves p others last (Stmt.relocate p.place) (Grammar.labeledStatement g)
      (Grammar.labeledStatement g) := by
  apply Moves.bind .identifier
  intro label
  apply Moves.symbol
  intro _
  apply Moves.bind (h .statement)
  intro body
  exact .rangeFrom rfl fun range => .pure (by rw [Stmt.relocate]; rfl)

theorem expressionStatement (hg : g.Sound) :
    Moves p others last (Stmt.relocate p.place) (Grammar.expressionStatement g)
      (Grammar.expressionStatement g) := by
  apply Moves.peek
  intro token _
  apply Moves.bind (h.expression hg false)
  intro value
  exact .semicolon (.rangeFrom rfl fun range => .pure (by rw [Stmt.relocate]))

theorem statement (hg : g.Sound) :
    Moves p others last (Stmt.relocate p.place) (Grammar.statement g) (Grammar.statement g) := by
  apply Moves.peek
  intro token _
  dsimp only [Token.relocate]
  split
  · exact h.blockStatement
  · exact emptyStatement
  · exact h.declarationStatement .var
  · exact h.declarationStatement .let
  · exact h.declarationStatement .const
  · exact h.functionStatement
  · exact h.ifStatement
  · exact h.whileStatement
  · exact h.doStatement
  · exact h.forStatement
  · exact jumpStatement .break
  · exact jumpStatement .continue
  · exact h.returnStatement
  · exact h.throwStatement
  · exact h.tryStatement
  · exact h.switchStatement
  · exact h.withStatement
  · exact debuggerStatement
  · apply Moves.get
    intro c
    rw [c.nextKind_relocate]
    exact .ite h.labeledStatement (h.expressionStatement hg)
  · exact h.expressionStatement hg

theorem statements (hg : g.Sound) :
    Moves p others last (Stmt.relocates p.place) (Grammar.statements g)
      (Grammar.statements g) := by
  apply Moves.eat
  intro _
  apply Moves.ite
  · exact .pure (by rw [Stmt.relocates])
  · apply Moves.isAt
    intro _
    apply Moves.ite
    · exact .unexpected _
    · apply Moves.bind (h.statement hg)
      intro stmt
      apply Moves.bind (h .statements)
      intro stmts
      exact .pure (by rw [Stmt.relocates]; rfl)

theorem clauseBody (hg : g.Sound) :
    Moves p others last (Stmt.relocates p.place) (Grammar.clauseBody g)
      (Grammar.clauseBody g) := by
  apply Moves.peek
  intro _ _
  apply Moves.ite
  · exact .pure (by rw [Stmt.relocates])
  · apply Moves.bind (h.statement hg)
    intro stmt
    apply Moves.bind (h .clauseBody)
    intro stmts
    exact .pure (by rw [Stmt.relocates]; rfl)

theorem program (hg : g.Sound) :
    Moves p others last (Stmt.relocates p.place) (Grammar.program g) (Grammar.program g) := by
  apply Moves.isAt
  intro _
  apply Moves.ite
  · exact .pure (by rw [Stmt.relocates])
  · apply Moves.bind (h.statement hg)
    intro stmt
    apply Moves.bind (h .program)
    intro stmts
    exact .pure (by rw [Stmt.relocates]; rfl)

theorem parameters :
    Moves p others last (List.map (Identifier.relocate p.place)) (Grammar.parameters g)
      (Grammar.parameters g) := by
  apply Moves.eat
  intro _
  apply Moves.ite
  · exact .pure rfl
  · apply Moves.bind .identifier
    intro name
    have hmore : Moves p others last (List.map (Identifier.relocate p.place))
        (g .parameters >>= fun others => pure (name :: others))
        (g .parameters >>= fun others => pure (name.relocate p.place :: others)) :=
      .bind (h .parameters) fun _ => .pure rfl
    apply Moves.isAt
    intro _
    exact .ite (.symbol fun _ => hmore) hmore

end Parts

/-- Where the parts of a production are read in the same way, it is read in the same way. -/
theorem read (h : g.Moved p others last) (hg : g.Sound) :
    Grammar.Moved p others last (Grammar.read g) := by
  intro α production
  cases production with
  | program => exact h.program hg
  | statement => exact h.statement hg
  | statements => exact h.statements hg
  | clauses => exact h.clauses
  | clauseBody => exact h.clauseBody hg
  | declarators noIn => exact h.declarators noIn
  | parameters => exact h.parameters
  | expression noIn => exact h.expression hg noIn
  | commaParts noIn => exact h.commaParts hg noIn
  | assignment noIn => exact h.assignment hg noIn
  | binary least noIn => exact h.binary least noIn
  | binaryRest least noIn left => exact h.binaryRest least noIn left
  | unary => exact h.unary
  | suffixes target => exact h.suffixes target
  | members target => exact h.members target
  | construction => exact h.construction
  | elements close => exact h.elements hg close

end Grammar.Moved

/-- Every production is read in the same way wherever its tokens stand. -/
theorem Grammar.moved_upTo (p : Placement) (others : List Token) (last : Token) (bound : Nat) :
    Grammar.Moved p others last (Grammar.upTo bound) := by
  induction bound with
  | zero => exact fun production => .unexpected _
  | succ bound ih => exact ih.read (Grammar.sound_upTo bound)

namespace Script

variable {p : Placement} {others : List Token} {last : Token}

/-- Moved tokens are read as the moved script, or rejected for the same reason. -/
theorem ofTokens_relocate (hc : Cursor.Over others last ⟨others, last, 0⟩) :
    Carries (·.relocate p.place) (·.relocate p.place) (ofTokens (others ++ [last]))
      (ofTokens ((others ++ [last]).map (·.relocate p.place))) := by
  have hcursor : Cursor.ofTokens ((others ++ [last]).map (·.relocate p.place)) =
      Cursor.relocate p ⟨others, last, 0⟩ := by
    rw [List.map_append, List.map_singleton, Cursor.ofTokens_append, Cursor.relocate, p.stop_zero]
  have hlength : (Cursor.relocate p ⟨others, last, 0⟩).ahead.length = others.length :=
    List.length_map _
  rw [ofTokens, ofTokens, hcursor, Cursor.ofTokens_append]
  dsimp only
  rw [Production.parse, Production.parse, hlength]
  apply Carries.bind ((Grammar.moved_upTo p others last _ .program).carries _ hc)
  rintro ⟨body, d⟩
  apply Carries.ok_of_eq
  rw [relocate, Placement.place, p.start_zero]
  rfl

theorem marks_of_ofTokens (hc : Cursor.Over others last ⟨others, last, 0⟩)
    (h : ofTokens (others ++ [last]) = .error error) : error.range.Marks others last := by
  have hmoved := Grammar.moved_upTo ⟨id, id, rfl, rfl⟩ others last (others.length + 1) .program
  rw [ofTokens, Cursor.ofTokens_append] at h
  dsimp only at h
  cases hp : Production.program.parse ⟨others, last, 0⟩ with
  | ok result =>
    rw [hp] at h
    cases h
  | error first =>
    rw [hp] at h
    obtain rfl := Except.error.inj h
    exact hmoved.marks _ hc first hp

end Script

end FlowLint
