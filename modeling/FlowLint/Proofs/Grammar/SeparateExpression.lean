import FlowLint.Proofs.Grammar.Separated

namespace FlowLint
set_option autoImplicit true

open Piece (Separated)

namespace Production

/-- The pieces that a production reads side by side. -/
def row : {α : Type} → Production α → α → List Piece
  | _, .program, stmts | _, .statements, stmts | _, .clauseBody, stmts => stmts.map .statement
  | _, .statement, stmt => [.statement stmt]
  | _, .clauses, cases => cases.map .clause
  | _, .declarators _, names => names.map .declarator
  | _, .parameters, names => names.map .identifier
  | _, .commaParts _, exprs | _, .elements _, exprs => exprs.map .expression
  | _, .expression _, expr | _, .assignment _, expr | _, .binary _ _, expr
  | _, .binaryRest _ _ _, expr | _, .unary, expr | _, .suffixes _, expr | _, .members _, expr
  | _, .construction, expr => [.expression expr]

def given : {α : Type} → Production α → List Piece
  | _, .binaryRest _ _ expr | _, .suffixes expr | _, .members expr => [.expression expr]
  | _, _ => []

end Production

/-- What a grammar reads from the rest of a source has separators if what it goes on from has. -/
def Grammar.Separating (others : List Token) (last : Token) (g : Grammar) : Prop :=
  ∀ {α : Type} (p : Production α), Separated others p.given →
    TokenReader.Builds others last p.row (g p)

namespace Grammar.Separating

open TokenReader (Builds)

variable {others : List Token} {last : Token} {g : Grammar}

theorem number : Builds others last (fun expr => [.expression expr]) Grammar.number := by
  apply Builds.bump
  intro token
  split
  · exact .pure (.node .nil rfl)
  · exact .throw _

theorem string : Builds others last (fun expr => [.expression expr]) Grammar.string :=
  .bump fun _ => .pure (.node .nil rfl)

theorem propertyName : Builds others last (fun id => [.identifier id]) Grammar.propertyName :=
  .bump fun _ => .ite (.pure (.identifier _)) (.throw _)

section Parts

variable (hg : g.Separating others last)
include hg

theorem parenthesized :
    Builds others last (fun expr => [.expression expr]) (Grammar.parenthesized g) := by
  apply Builds.symbol
  intro _
  apply Builds.bind (hg (.expression false) .nil)
  intro expr hexpr
  exact .symbol fun _ => .pure hexpr

theorem parameterList :
    Builds others last (fun names => names.map .identifier) (Grammar.parameterList g) :=
  .symbol fun _ => hg .parameters .nil

theorem functionBody :
    Builds others last (fun stmts => stmts.map .statement) (Grammar.functionBody g) :=
  .symbol fun _ => hg .statements .nil

theorem argumentList :
    Builds others last (fun exprs => exprs.map .expression) (Grammar.argumentList g) :=
  .symbol fun _ => hg (.elements .rightParen) .nil

theorem arrayLiteral :
    Builds others last (fun expr => [.expression expr]) (Grammar.arrayLiteral g) := by
  apply Builds.bump
  intro token
  apply Builds.bind (hg (.elements .rightBracket) .nil)
  intro elements helements
  exact .rangeFrom fun _ => .pure (.node helements rfl)

theorem functionExpression :
    Builds others last (fun expr => [.expression expr]) (Grammar.functionExpression g) := by
  apply Builds.bump
  intro token
  apply Builds.isAt
  intro named
  apply Builds.ite_bind (r := fun name => name.toList.map .identifier)
  · exact .map .identifier fun _ h => h
  · exact .pure .nil
  intro name hname
  apply Builds.bind hg.parameterList
  intro parameters hparameters
  apply Builds.bind hg.functionBody
  intro body hbody
  exact .rangeFrom fun _ => .pure (.node ((hname.append hparameters).append hbody) rfl)

theorem primary : Builds others last (fun expr => [.expression expr]) (Grammar.primary g) := by
  apply Builds.peek
  intro token
  dsimp only
  split
  · exact .bump fun _ => .pure (.node .nil rfl)
  · exact number
  · exact string
  · exact .bump fun _ => .pure (.node .nil rfl)
  · exact .bump fun _ => .pure (.node .nil rfl)
  · exact .bump fun _ => .pure (.node .nil rfl)
  · exact hg.parenthesized
  · exact hg.arrayLiteral
  · exact hg.functionExpression
  · exact .unexpected _

theorem memberSuffix {target : Expr} (ht : Separated others [.expression target]) :
    Builds others last (fun expr => [.expression expr]) (Grammar.memberSuffix g target) := by
  apply Builds.eat
  intro eaten
  apply Builds.ite
  · apply Builds.bind propertyName
    intro property hproperty
    exact .rangeFrom fun _ => .pure (.node (ht.append hproperty) rfl)
  · apply Builds.symbol
    intro _
    apply Builds.bind (hg (.expression false) .nil)
    intro index hindex
    exact .symbol fun _ => .rangeFrom fun _ => .pure (.node (ht.append hindex) rfl)

theorem members {target : Expr} (ht : Separated others [.expression target]) :
    Builds others last (fun expr => [.expression expr]) (Grammar.members g target) := by
  have hmore : Builds others last (fun expr => [.expression expr])
      (Grammar.memberSuffix g target >>= fun target => g (.members target)) :=
    .bind (hg.memberSuffix ht) fun member hmember => hg (.members member) hmember
  apply Builds.peek
  intro token
  split
  · exact hmore
  · exact hmore
  · exact .pure ht

theorem suffixes {target : Expr} (ht : Separated others [.expression target]) :
    Builds others last (fun expr => [.expression expr]) (Grammar.suffixes g target) := by
  have hmore : Builds others last (fun expr => [.expression expr])
      (Grammar.memberSuffix g target >>= fun target => g (.suffixes target)) :=
    .bind (hg.memberSuffix ht) fun member hmember => hg (.suffixes member) hmember
  apply Builds.peek
  intro token
  split
  · apply Builds.bind hg.argumentList
    intro arguments harguments
    exact .rangeFrom fun _ => hg (.suffixes _) (.node (ht.append harguments) rfl)
  · exact hmore
  · exact hmore
  · exact .pure ht

theorem construction :
    Builds others last (fun expr => [.expression expr]) (Grammar.construction g) := by
  apply Builds.bump
  intro token
  apply Builds.isAt
  intro again
  apply Builds.ite_bind (hg .construction .nil) hg.primary
  intro callee hcallee
  apply Builds.bind (hg.members hcallee)
  intro callee hcallee
  apply Builds.isAt
  intro called
  apply Builds.ite_bind hg.argumentList
  · exact .pure .nil
  intro arguments harguments
  exact .rangeFrom fun _ => .pure (.node (hcallee.append harguments) rfl)

theorem call : Builds others last (fun expr => [.expression expr]) (Grammar.call g) := by
  apply Builds.isAt
  intro new
  exact .ite_bind hg.construction hg.primary fun target ht => hg.suffixes ht

theorem postfixUpdate :
    Builds others last (fun expr => [.expression expr]) (Grammar.postfixUpdate g) := by
  apply Builds.bind hg.call
  intro target ht
  apply Builds.peek
  intro token
  split
  · exact .ite (.pure ht) (.bump fun _ => .pure (.node ht rfl))
  · exact .pure ht

theorem unary : Builds others last (fun expr => [.expression expr]) (Grammar.unary g) := by
  apply Builds.peek
  intro token
  dsimp only
  split
  · exact .bump fun _ => .bind (hg .unary .nil) fun _ h => .pure (.node h rfl)
  · split
    · exact .bump fun _ => .bind (hg .unary .nil) fun _ h => .pure (.node h rfl)
    · exact hg.postfixUpdate

theorem binaryRest {left : Expr} (hl : Separated others [.expression left]) (least : Nat)
    (noIn : Bool) :
    Builds others last (fun expr => [.expression expr]) (Grammar.binaryRest g least noIn left) := by
  apply Builds.peek
  intro token
  split
  · next op _ =>
    apply Builds.ite
    · exact .pure hl
    · apply Builds.bump
      intro _
      apply Builds.bind (hg (.binary op.rightPrecedence noIn) .nil)
      intro right hright
      exact hg (.binaryRest least noIn _) (.node (hl.append hright) rfl)
  · exact .pure hl

theorem binary (least : Nat) (noIn : Bool) :
    Builds others last (fun expr => [.expression expr]) (Grammar.binary g least noIn) :=
  .bind hg.unary fun _ hl => hg.binaryRest hl least noIn

theorem conditional (noIn : Bool) :
    Builds others last (fun expr => [.expression expr]) (Grammar.conditional g noIn) := by
  apply Builds.bind (hg.binary 0 noIn)
  intro test ht
  apply Builds.eat
  intro eaten
  apply Builds.ite
  · apply Builds.bind (hg (.assignment false) .nil)
    intro whenTrue hw
    apply Builds.symbol
    intro _
    apply Builds.bind (hg (.assignment noIn) .nil)
    intro whenFalse hf
    exact .pure (.node ((ht.append hw).append hf) rfl)
  · exact .pure ht

theorem assignment (noIn : Bool) :
    Builds others last (fun expr => [.expression expr]) (Grammar.assignment g noIn) := by
  apply Builds.bind (hg.conditional noIn)
  intro target ht
  apply Builds.peek
  intro token
  split
  · apply Builds.ite
    · apply Builds.bump
      intro _
      exact .bind (hg (.assignment noIn) .nil) fun value hv => .pure (.node (ht.append hv) rfl)
    · exact .throw _
  · exact .pure ht

theorem commaParts (noIn : Bool) :
    Builds others last (fun exprs => exprs.map .expression) (Grammar.commaParts g noIn) := by
  apply Builds.eat
  intro eaten
  apply Builds.ite
  · apply Builds.bind (hg.assignment noIn)
    intro part hp
    exact .bind (hg (.commaParts noIn) .nil) fun parts hs => .pure (hp.append hs)
  · exact .pure .nil

theorem expression (noIn : Bool) :
    Builds others last (fun expr => [.expression expr]) (Grammar.expression g noIn) := by
  apply Builds.bind (hg.assignment noIn)
  intro first hf
  apply Builds.isAt
  intro more
  apply Builds.ite
  · apply Builds.bind (hg.commaParts noIn)
    intro parts hp
    exact .rangeFrom fun _ => .pure (.node (hf.append hp) rfl)
  · exact .pure hf

theorem elements (close : Symbol) :
    Builds others last (fun exprs => exprs.map .expression) (Grammar.elements g close) := by
  apply Builds.eat
  intro eaten
  apply Builds.ite
  · exact .pure .nil
  · apply Builds.bind (hg.assignment false)
    intro element he
    have hmore : Builds others last (fun exprs => exprs.map .expression)
        (g (.elements close) >>= fun elements => pure (element :: elements)) :=
      .bind (hg (.elements close) .nil) fun elements hs => .pure (he.append hs)
    apply Builds.isAt
    intro closes
    exact .ite (.symbol fun _ => hmore) hmore

end Parts

end Grammar.Separating

end FlowLint
