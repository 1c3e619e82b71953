import FlowLint.Grammar.Script
import FlowLint.Proofs.Grammar.Moved
import FlowLint.Proofs.Grammar.Nesting
import FlowLint.Proofs.Tree.Relocated

namespace FlowLint
set_option autoImplicit true

/-- The same production, behind a moved expression if it goes on from one. -/
def Production.relocate (f : Range → Range) : {α : Type} → Production α → Production α
  | _, .binaryRest least noIn left => .binaryRest least noIn (left.relocate f)
  | _, .suffixes target => .suffixes (target.relocate f)
  | _, .members target => .members (target.relocate f)
  | _, production => production

def Production.moved (f : Range → Range) : {α : Type} → Production α → α → α
  | _, .program, stmts | _, .statements, stmts | _, .clauseBody, stmts => Stmt.relocates f stmts
  | _, .statement, stmt => stmt.relocate f
  | _, .clauses, cases => Clause.relocates f cases
  | _, .declarators _, names => Declarator.relocates f names
  | _, .parameters, names => names.map (·.relocate f)
  | _, .commaParts _, exprs | _, .elements _, exprs => Expr.relocates f exprs
  | _, .expression _, expr | _, .assignment _, expr | _, .binary _ _, expr
  | _, .binaryRest _ _ _, expr | _, .unary, expr | _, .suffixes _, expr | _, .members _, expr
  | _, .construction, expr => expr.relocate f

/-- A grammar reads every production in the same way from moved tokens. -/
def Grammar.Moved (p : Placement) (others : List Token) (last : Token) (g : Grammar) : Prop :=
  ∀ {α : Type} (production : Production α),
    TokenReader.Moves p others last (production.moved p.place) (g production)
      (g (production.relocate p.place))

theorem Expr.start_relocate (p : Placement) (expr : Expr) :
    (expr.relocate p.place).range.start = p.start expr.range.start := by
  rw [expr.range_relocate]
  rfl

theorem Expr.stop_relocate (p : Placement) (expr : Expr) :
    (expr.relocate p.place).range.stop = p.stop expr.range.stop := by
  rw [expr.range_relocate]
  rfl

namespace Grammar.Moved

open TokenReader (Moves)

variable {p : Placement} {others : List Token} {last : Token} {g : Grammar} {target : Expr}

theorem number : Moves p others last (Expr.relocate p.place) Grammar.number Grammar.number := by
  apply Moves.bump
  intro token hm
  dsimp only [Token.relocate]
  split
  · exact .pure rfl
  · exact .throw hm rfl

theorem string : Moves p others last (Expr.relocate p.place) Grammar.string Grammar.string :=
  .bump fun _ _ => .pure rfl

theorem propertyName :
    Moves p others last (Identifier.relocate p.place) Grammar.propertyName Grammar.propertyName :=
  .bump fun _ hm => .ite (.pure rfl) (.throw hm rfl)

section Parts

variable (h : g.Moved p others last)
include h

theorem parenthesized :
    Moves p others last (Expr.relocate p.place) (Grammar.parenthesized g)
      (Grammar.parenthesized g) := by
  apply Moves.symbol
  intro _
  apply Moves.bind (h (.expression false))
  intro expr
  exact .symbol fun _ => .pure rfl

theorem parameterList :
    Moves p others last (List.map (Identifier.relocate p.place)) (Grammar.parameterList g)
      (Grammar.parameterList g) :=
  .symbol fun _ => h .parameters

theorem functionBody :
    Moves p others last (Stmt.relocates p.place) (Grammar.functionBody g)
      (Grammar.functionBody g) :=
  .symbol fun _ => h .statements

theorem argumentList :
    Moves p others last (Expr.relocates p.place) (Grammar.argumentList g)
      (Grammar.argumentList g) :=
  .symbol fun _ => h (.elements .rightParen)

theorem arrayLiteral :
    Moves p others last (Expr.relocate p.place) (Grammar.arrayLiteral g)
      (Grammar.arrayLiteral g) := by
  apply Moves.bump
  intro token _
  apply Moves.bind (h (.elements .rightBracket))
  intro elements
  exact .rangeFrom rfl fun range => .pure (by rw [Expr.relocate]; rfl)

theorem functionExpression :
    Moves p others last (Expr.relocate p.place) (Grammar.functionExpression g)
      (Grammar.functionExpression g) := by
  apply Moves.bump
  intro token _
  apply Moves.isAt
  intro named
  apply Moves.ite_bind (f := Option.map (Identifier.relocate p.place))
  · exact .map .identifier fun _ => rfl
  · exact .pure rfl
  intro name
  apply Moves.bind h.parameterList
  intro parameters
  apply Moves.bind h.functionBody
  intro body
  exact .rangeFrom rfl fun range => .pure (by rw [Expr.relocate])

theorem primary :
    Moves p others last (Expr.relocate p.place) (Grammar.primary g) (Grammar.primary g) := by
  apply Moves.peek
  intro token hm
  dsimp only [Token.relocate]
  split
  · exact .bump fun _ _ => .pure rfl
  · exact number
  · exact string
  · exact .bump fun _ _ => .pure rfl
  · exact .bump fun _ _ => .pure rfl
  · exact .bump fun _ _ => .pure rfl
  · exact h.parenthesized
  · exact h.arrayLiteral
  · exact h.functionExpression
  · exact .unexpected _

theorem memberSuffix (target : Expr) :
    Moves p others last (Expr.relocate p.place) (Grammar.memberSuffix g target)
      (Grammar.memberSuffix g (target.relocate p.place)) := by
  apply Moves.eat
  intro eaten
  apply Moves.ite
  · apply Moves.bind propertyName
    intro property
    exact .rangeFrom (target.start_relocate p) fun range => .pure (by rw [Expr.relocate])
  · apply Moves.symbol
    intro _
    apply Moves.bind (h (.expression false))
    intro index
    apply Moves.symbol
    intro _
    exact .rangeFrom (target.start_relocate p) fun range => .pure (by rw [Expr.relocate]; rfl)

theorem members (target : Expr) :
    Moves p others last (Expr.relocate p.place) (Grammar.members g target)
      (Grammar.members g (target.relocate p.place)) := by
  have hmore : Moves p others last (Expr.relocate p.place)
      (Grammar.memberSuffix g target >>= fun target => g (.members target))
      (Grammar.memberSuffix g (target.relocate p.place) >>= fun target => g (.members target)) :=
    .bind (h.memberSuffix target) fun member => h (.members member)
  apply Moves.peek
  intro token _
  dsimp only [Token.relocate]
  split
  · exact hmore
  · exact hmore
  · exact .pure rfl

theorem suffixes (target : Expr) :
    Moves p others last (Expr.relocate p.place) (Grammar.suffixes g target)
      (Grammar.suffixes g (target.relocate p.place)) := by
  have hmore : Moves p others last (Expr.relocate p.place)
      (Grammar.memberSuffix g target >>= fun target => g (.suffixes target))
      (Grammar.memberSuffix g (target.relocate p.place) >>= fun target => g (.suffixes target)) :=
    .bind (h.memberSuffix target) fun member => h (.suffixes member)
  apply Moves.peek
  intro token _
  dsimp only [Token.relocate]
  split
  · apply Moves.bind h.argumentList
    intro arguments
    apply Moves.rangeFrom (target.start_relocate p)
    intro range
    have hcall := h (.suffixes (.call range target arguments))
    rw [Production.relocate, Expr.relocate] at hcall
    exact hcall
  · exact hmore
  · exact hmore
  · exact .pure rfl

theorem construction :
    Moves p others last (Expr.relocate p.place) (Grammar.construction g)
      (Grammar.construction g) := by
  apply Moves.bump
  intro token _
  apply Moves.isAt
  intro again
  apply Moves.ite_bind (h .construction) h.primary
  intro callee
  apply Moves.bind (h.members callee)
  intro callee
  apply Moves.isAt
  intro called
  apply Moves.ite_bind h.argumentList
  · exact .pure rfl
  intro arguments
  exact .rangeFrom rfl fun range => .pure (by rw [Expr.relocate])

theorem call :
    Moves p others last (Expr.relocate p.place) (Grammar.call g) (Grammar.call g) := by
  apply Moves.isAt
  intro new
  exact .ite_bind h.construction h.primary h.suffixes

theorem postfixUpdate :
    Moves p others last (Expr.relocate p.place) (Grammar.postfixUpdate g)
      (Grammar.postfixUpdate g) := by
  apply Moves.bind h.call
  intro target
  apply Moves.peek
  intro token _
  dsimp only [Token.relocate]
  split
  · apply Moves.ite
    · exact .pure rfl
    · exact .bump fun _ _ => .pure (by rw [Expr.relocate, target.start_relocate]; rfl)
  · exact .pure rfl

theorem unary :
    Moves p others last (Expr.relocate p.place) (Grammar.unary g) (Grammar.unary g) := by
  apply Moves.peek
  intro token _
  dsimp only [Token.relocate]
  split
  · apply Moves.bump
    intro _ _
    apply Moves.bind (h .unary)
    intro operand
    exact .pure (by simp only [Expr.relocate, Production.moved, Expr.stop_relocate]; rfl)
  · split
    · apply Moves.bump
      intro _ _
      apply Moves.bind (h .unary)
      intro target
      exact .pure (by simp only [Expr.relocate, Production.moved, Expr.stop_relocate]; rfl)
    · exact h.postfixUpdate

theorem binaryRest (least : Nat) (noIn : Bool) (left : Expr) :
    Moves p others last (Expr.relocate p.place) (Grammar.binaryRest g least noIn left)
      (Grammar.binaryRest g least noIn (left.relocate p.place)) := by
  apply Moves.peek
  intro token _
  dsimp only [Token.relocate]
  split
  · rename_i op _
    apply Moves.ite
    · exact .pure rfl
    · apply Moves.bump
      intro _ _
      apply Moves.bind (h (.binary op.rightPrecedence noIn))
      intro right
      have hrest := h (.binaryRest least noIn
        (.binary ⟨left.range.start, right.range.stop⟩ op left right))
      simp only [Production.relocate, Expr.relocate, Placement.place] at hrest
      simp only [Production.moved, Expr.start_relocate, Expr.stop_relocate]
      exact hrest
  · exact .pure rfl

theorem binary (least : Nat) (noIn : Bool) :
    Moves p others last (Expr.relocate p.place) (Grammar.binary g least noIn)
      (Grammar.binary g least noIn) :=
  .bind h.unary fun left => h.binaryRest least noIn left

theorem conditional (noIn : Bool) :
    Moves p others last (Expr.relocate p.place) (Grammar.conditional g noIn)
      (Grammar.conditional g noIn) := by
  apply Moves.bind (h.binary 0 noIn)
  intro test
  apply Moves.eat
  intro eaten
  apply Moves.ite
  · apply Moves.bind (h (.assignment false))
    intro whenTrue
    apply Moves.symbol
    intro _
    apply Moves.bind (h (.assignment noIn))
    intro whenFalse
    exact .pure (by
      simp only [Expr.relocate, Production.moved, Expr.start_relocate, Expr.stop_relocate]
      rfl)
  · exact .pure rfl

/-- An expression that is no target is blamed as a whole. -/
theorem assignment (hg : g.Sound) (noIn : Bool) :
    Moves p others last (Expr.relocate p.place) (Grammar.assignment g noIn)
      (Grammar.assignment g noIn) := by
  apply (h.conditional noIn).bind_of (P := fun target => target.range.Marks others last)
  · intro c hc target d he
    obtain ⟨-, hs⟩ := Grammar.Sound.conditional hg hc.closed target d he
    have hlaid := (hs.lays.crosses hc.along).laid _ (List.mem_singleton_self _)
    exact .inl hlaid.spans
  intro target hm
  apply Moves.peek
  intro token _
  dsimp only [Token.relocate]
  split
  · have hassignable : (target.relocate p.place).isAssignable = target.isAssignable := by
      cases target <;> simp only [Expr.relocate, Expr.isAssignable]
    rw [hassignable]
    apply Moves.ite
    · apply Moves.bump
      intro _ _
      apply Moves.bind (h (.assignment noIn))
      intro value
      exact .pure (by
        simp only [Expr.relocate, Production.moved, Expr.start_relocate, Expr.stop_relocate]
        rfl)
    · exact .throw hm (by rw [target.range_relocate]; rfl)
  · exact .pure rfl

theorem commaParts (hg : g.Sound) (noIn : Bool) :
    Moves p others last (Expr.relocates p.place) (Grammar.commaParts g noIn)
      (Grammar.commaParts g noIn) := by
  apply Moves.eat
  intro eaten
  apply Moves.ite
  · apply Moves.bind (h.assignment hg noIn)
    intro part
    apply Moves.bind (h (.commaParts noIn))
    intro parts
    exact .pure (by rw [Expr.relocates]; rfl)
  · exact .pure (by rw [Expr.relocates])

theorem expression (hg : g.Sound) (noIn : Bool) :
    Moves p others last (Expr.relocate p.place) (Grammar.expression g noIn)
      (Grammar.expression g noIn) := by
  apply Moves.bind (h.assignment hg noIn)
  intro first
  apply Moves.isAt
  intro more
  apply Moves.ite
  · apply Moves.bind (h.commaParts hg noIn)
    intro parts
    exact .rangeFrom (first.start_relocate p) fun range =>
      .pure (by rw [Expr.relocate, Expr.relocates])
  · exact .pure rfl

theorem elements (hg : g.Sound) (close : Symbol) :
    Moves p others last (Expr.relocates p.place) (Grammar.elements g close)
      (Grammar.elements g close) := by
  apply Moves.eat
  intro eaten
  apply Moves.ite
  · exact .pure (by rw [Expr.relocates])
  · apply Moves.bind (h.assignment hg false)
    intro element
    have hmore : Moves p others last (Expr.relocates p.place)
        (g (.elements close) >>= fun elements => pure (element :: elements))
        (g (.elements close) >>= fun elements => pure (element.relocate p.place :: elements)) :=
      .bind (h (.elements close)) fun elements => .pure (by rw [Expr.relocates]; rfl)
    apply Moves.isAt
    intro closes
    exact .ite (.symbol fun _ => hmore) hmore

end Parts

end Grammar.Moved

end FlowLint
