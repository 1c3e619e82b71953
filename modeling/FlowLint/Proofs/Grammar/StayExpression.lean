import FlowLint.Proofs.Grammar.Stays

namespace FlowLint
set_option autoImplicit true

namespace Production

/-- Where a production may be read in front of a word `in`: within what is open, and with the kind
of the current token. The word is no operator with `noIn`, or within brackets. -/
def Fits (within : List Bracket) (current : TokenKind) : {α : Type} → Production α → Prop
  | _, .program => False
  | _, .statement | _, .statements | _, .clauses | _, .clauseBody =>
    ∃ outer, within = .brace :: outer
  | _, .parameters => ∃ outer, within = .paren :: outer
  | _, .elements close =>
    within ≠ [] ∧ close ≠ .dot ∧ (TokenKind.symbol close).nest within = within.tail
  | _, .expression noIn | _, .commaParts noIn | _, .assignment noIn | _, .binary _ noIn
  | _, .binaryRest _ noIn _ | _, .declarators noIn => noIn = false → within ≠ []
  | _, .construction => current = .keyword .new
  | _, .unary | _, .suffixes _ | _, .members _ => True

def leaves (within : List Bracket) : {α : Type} → Production α → List Bracket
  | _, .statements | _, .clauses | _, .parameters | _, .elements _ => within.tail
  | _, _ => within

end Production

/-- A grammar reads every production that fits in front of a word `in` so that it stays ahead. -/
def Grammar.Stays (word : InWord) (g : Grammar) : Prop :=
  ∀ {α : Type} (p : Production α) (within : List Bracket) (left : List Token) (stop : Nat),
    Closes within left → p.Fits within (word.current left).kind →
      (g p).Stays word (p.leaves within) left stop

namespace Grammar.Stays

open TokenReader (Stays)

variable {word : InWord} {g : Grammar} {within outer : List Bracket} {left : List Token}
  {stop : Nat} {noIn : Bool} {close : Symbol}

theorem number (h : Closes within left) (hk : (word.current left).kind = .number) :
    Grammar.number.Stays word within left stop := by
  apply Stays.bump h hk nofun nofun
  intro left stop h
  split
  · exact .pure h _
  · exact .throw _

theorem string (h : Closes within left) (hk : (word.current left).kind = .string) :
    Grammar.string.Stays word within left stop :=
  .bump h hk nofun nofun fun _ _ h => .pure h _

theorem propertyName (h : Closes within left) :
    Grammar.propertyName.Stays word within (property :: left) stop :=
  .bump_cons (.ite (fun _ => .pure h _) fun _ => .throw _)

section Parts

variable (hg : g.Stays word) (h : Closes within left)
include hg h

theorem parenthesized : (Grammar.parenthesized g).Stays word within left stop := by
  apply Stays.symbol h (by nofun)
  intro _ left stop h
  apply Stays.bind (hg (.expression false) (.paren :: within) left stop h nofun)
  intro expr left stop h
  exact .symbol h nofun fun _ _ _ h => .pure h _

theorem parameterList : (Grammar.parameterList g).Stays word within left stop :=
  .symbol h nofun fun _ left stop h => hg .parameters (.paren :: within) left stop h ⟨_, rfl⟩

theorem functionBody : (Grammar.functionBody g).Stays word within left stop :=
  .symbol h nofun fun _ left stop h => hg .statements (.brace :: within) left stop h ⟨_, rfl⟩

theorem argumentList : (Grammar.argumentList g).Stays word within left stop :=
  .symbol h nofun fun _ left stop h =>
    hg (.elements .rightParen) (.paren :: within) left stop h ⟨nofun, nofun, rfl⟩

theorem arrayLiteral (hk : (word.current left).kind = .symbol .leftBracket) :
    (Grammar.arrayLiteral g).Stays word within left stop := by
  apply Stays.bump h hk nofun nofun
  intro left stop h
  apply Stays.bind
    (hg (.elements .rightBracket) (.square :: within) left stop h ⟨nofun, nofun, rfl⟩)
  intro elements left stop h
  exact .rangeFrom (.pure h _)

theorem functionExpression (hk : (word.current left).kind = .keyword .function) :
    (Grammar.functionExpression g).Stays word within left stop := by
  apply Stays.bump h hk nofun nofun
  intro left stop h
  apply Stays.isAt
  apply Stays.ite_bind (m := within)
  · exact fun _ => .map (.identifier h)
  · exact fun _ => .pure h _
  intro name left stop h
  apply Stays.bind (hg.parameterList h)
  intro parameters left stop h
  apply Stays.bind (hg.functionBody h)
  intro body left stop h
  exact .rangeFrom (.pure h _)

theorem primary : (Grammar.primary g).Stays word within left stop := by
  apply Stays.peek
  dsimp only
  split
  · next hk => exact .bump h hk nofun nofun fun _ _ h => .pure h _
  · next hk => exact number h hk
  · next hk => exact string h hk
  · next hk => exact .bump h hk nofun nofun fun _ _ h => .pure h _
  · next hk => exact .bump h hk nofun nofun fun _ _ h => .pure h _
  · next hk => exact .bump h hk nofun nofun fun _ _ h => .pure h _
  · exact hg.parenthesized h
  · next hk => exact hg.arrayLiteral h hk
  · next hk => exact hg.functionExpression h hk
  · exact .unexpected _

theorem memberSuffix (target : Expr) :
    (Grammar.memberSuffix g target).Stays word within left stop := by
  apply Stays.eat_dot h
  · intro property left stop h
    apply Stays.bind (propertyName h)
    intro property left stop h
    exact .rangeFrom (.pure h _)
  · apply Stays.symbol h (by nofun)
    intro _ left stop h
    apply Stays.bind (hg (.expression false) (.square :: within) left stop h nofun)
    intro index left stop h
    exact .symbol h nofun fun _ _ _ h => .rangeFrom (.pure h _)

theorem members (target : Expr) : (Grammar.members g target).Stays word within left stop := by
  have hmore : (Grammar.memberSuffix g target >>= fun target => g (.members target)).Stays word
      within left stop :=
    .bind (hg.memberSuffix h target) fun target left stop h =>
      hg (.members target) within left stop h trivial
  apply Stays.peek
  split
  · exact hmore
  · exact hmore
  · exact .pure h _

theorem suffixes (target : Expr) : (Grammar.suffixes g target).Stays word within left stop := by
  have hmore : (Grammar.memberSuffix g target >>= fun target => g (.suffixes target)).Stays word
      within left stop :=
    .bind (hg.memberSuffix h target) fun target left stop h =>
      hg (.suffixes target) within left stop h trivial
  apply Stays.peek
  split
  · apply Stays.bind (hg.argumentList h)
    intro arguments left stop h
    exact .rangeFrom (hg (.suffixes _) within left stop h trivial)
  · exact hmore
  · exact hmore
  · exact .pure h _

theorem construction (hk : (word.current left).kind = .keyword .new) :
    (Grammar.construction g).Stays word within left stop := by
  apply Stays.bump h hk nofun nofun
  intro left stop h
  apply Stays.isAt
  apply Stays.ite_bind (m := within)
  · exact fun hk => hg .construction within left stop h (beq_iff_eq.1 hk)
  · exact fun _ => hg.primary h
  intro callee left stop h
  apply Stays.bind (hg.members h callee)
  intro callee left stop h
  apply Stays.isAt
  apply Stays.ite_bind (m := within)
  · exact fun _ => hg.argumentList h
  · exact fun _ => .pure h _
  intro arguments left stop h
  exact .rangeFrom (.pure h _)

theorem call : (Grammar.call g).Stays word within left stop := by
  apply Stays.isAt
  apply Stays.ite_bind (m := within)
  · exact fun hk => hg.construction h (beq_iff_eq.1 hk)
  · exact fun _ => hg.primary h
  exact fun target _ _ h => hg.suffixes h target

theorem postfixUpdate : (Grammar.postfixUpdate g).Stays word within left stop := by
  apply Stays.bind (hg.call h)
  intro target left stop h
  apply Stays.peek
  split
  · next op hop =>
    apply Stays.ite
    · exact fun _ => .pure h _
    · intro _
      apply Stays.bump_plain h (TokenKind.plain_of_updateOp? hop)
      · exact fun hin => nomatch (hin ▸ hop :)
      · exact fun _ _ h => .pure h _
  · exact .pure h _

theorem unary : (Grammar.unary g).Stays word within left stop := by
  apply Stays.peek
  dsimp only
  split
  · next op hop =>
    apply Stays.bump_plain h (TokenKind.plain_of_unaryOp? hop)
    · exact fun hin => nomatch (hin ▸ hop :)
    intro left stop h
    exact .bind (hg .unary within left stop h trivial) fun _ _ _ h => .pure h _
  · split
    · next op hop =>
      apply Stays.bump_plain h (TokenKind.plain_of_updateOp? hop)
      · exact fun hin => nomatch (hin ▸ hop :)
      intro left stop h
      exact .bind (hg .unary within left stop h trivial) fun _ _ _ h => .pure h _
    · exact hg.postfixUpdate h

/-- Only here the word could be read, as an operator. -/
theorem binaryRest (hn : noIn = false → within ≠ []) (least : Nat) (expr : Expr) :
    (Grammar.binaryRest g least noIn expr).Stays word within left stop := by
  apply Stays.peek
  split
  · next op hop =>
    apply Stays.ite
    · exact fun _ => .pure h _
    · intro _
      apply Stays.bump_plain h (TokenKind.plain_of_binaryOp? hop)
      · intro hin
        rw [hin] at hop
        cases noIn with
        | false => exact hn rfl
        | true => cases hop
      intro left stop h
      apply Stays.bind (hg (.binary op.rightPrecedence noIn) within left stop h hn)
      intro right left stop h
      exact hg (.binaryRest least noIn _) within left stop h hn
  · exact .pure h _

theorem binary (hn : noIn = false → within ≠ []) (least : Nat) :
    (Grammar.binary g least noIn).Stays word within left stop :=
  .bind (hg.unary h) fun left _ _ h => hg.binaryRest h hn least left

theorem conditional (hn : noIn = false → within ≠ []) :
    (Grammar.conditional g noIn).Stays word within left stop := by
  apply Stays.bind (hg.binary h hn 0)
  intro test left stop h
  apply Stays.eat h (by nofun) (by nofun)
  · intro left stop h
    apply Stays.bind (hg (.assignment false) (.middle :: within) left stop h nofun)
    intro whenTrue left stop h
    apply Stays.symbol h (by nofun)
    intro _ left stop h
    exact .bind (hg (.assignment noIn) within left stop h hn) fun _ _ _ h => .pure h _
  · exact .pure h _

theorem assignment (hn : noIn = false → within ≠ []) :
    (Grammar.assignment g noIn).Stays word within left stop := by
  apply Stays.bind (hg.conditional h hn)
  intro target left stop h
  apply Stays.peek
  split
  · next op hop =>
    apply Stays.ite
    · intro _
      apply Stays.bump_plain h (TokenKind.plain_of_assignOp? hop)
      · exact fun hin => nomatch (hin ▸ hop :)
      intro left stop h
      exact .bind (hg (.assignment noIn) within left stop h hn) fun _ _ _ h => .pure h _
    · exact fun _ => .throw _
  · exact .pure h _

theorem commaParts (hn : noIn = false → within ≠ []) :
    (Grammar.commaParts g noIn).Stays word within left stop := by
  apply Stays.eat h (by nofun) (by nofun)
  · intro left stop h
    apply Stays.bind (hg.assignment h hn)
    intro part left stop h
    exact .bind (hg (.commaParts noIn) within left stop h hn) fun _ _ _ h => .pure h _
  · exact .pure h _

theorem expression (hn : noIn = false → within ≠ []) :
    (Grammar.expression g noIn).Stays word within left stop := by
  apply Stays.bind (hg.assignment h hn)
  intro first left stop h
  apply Stays.isAt
  apply Stays.ite
  · intro _
    exact .bind (hg.commaParts h hn) fun _ _ _ h => .rangeFrom (.pure h _)
  · exact fun _ => .pure h _

theorem elements (hc : (Production.elements close).Fits within (word.current left).kind) :
    (Grammar.elements g close).Stays word within.tail left stop := by
  obtain ⟨hne, hd, htail⟩ := hc
  have hkind : TokenKind.symbol close ≠ .symbol .dot := by simpa using hd
  refine .eat h hkind nofun (fun left stop h => ?_) ?_
  · rw [htail] at h
    exact .pure h _
  · apply Stays.bind (hg.assignment h fun _ => hne)
    intro element left stop h
    have hmore {left : List Token} {stop : Nat} (h : Closes within left) :
        (g (.elements close) >>= fun elements => pure (element :: elements)).Stays word within.tail
          left stop :=
      .bind (hg (.elements close) within left stop h ⟨hne, hd, htail⟩) fun _ _ _ h => .pure h _
    apply Stays.isAt
    apply Stays.ite
    · exact fun _ => .symbol h nofun fun _ _ _ h => hmore h
    · exact fun _ => hmore h

end Parts

end Grammar.Stays

end FlowLint
