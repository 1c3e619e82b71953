import FlowLint.Proofs.Grammar.Excerpt

namespace FlowLint
set_option autoImplicit true

open Piece (Quoted)
open TokenReader (Again Concludes Repeats Resumes)

/-- From the first of the cursors on, some tokens were read as something that calls and member
accesses can stand behind, and the second cursor is the one behind it. -/
structure Expr.Targeted (others : List Token) (b : Cursor) (read : List Token) (c : Cursor)
    (target : Expr) : Prop where
  rests : b.Rests others
  leads : b.current.kind.Leads
  resumes : Resumes .closing (Grammar.call Production.parse)
    (Grammar.suffixes Production.parse target) b read c
  quoted : target.Quotable others

/-- From the first of the cursors on, some tokens were read as operands that more operators can stand
behind, and the second cursor is the one behind them. -/
structure Expr.Chained (others : List Token) (noIn : Bool) (b : Cursor) (read : List Token)
    (c : Cursor) (left : Expr) : Prop where
  rests : b.Rests others
  resumes : Resumes .closing (Grammar.binary Production.parse 0 noIn)
    (Grammar.binaryRest Production.parse 0 noIn left) b read c
  quoted : left.Quotable others

/-- From a cursor, what a production reads is read again from the same tokens, and all expressions in
it can be read on their own. -/
structure Production.RepeatsAt (others : List Token) (c : Cursor) : Prop where
  program : Repeats .same 0 (fun stmts => Quoted others (stmts.map .statement)) program.parse c
  statement : Repeats .same 1 (Stmt.Quotable others) statement.parse c
  statements : Repeats .any 1 (fun stmts => Quoted others (stmts.map .statement)) statements.parse c
  clauses : Repeats .any 1 (fun cases => Quoted others (cases.map .clause)) clauses.parse c
  clauseBody : Repeats .same 0 (fun stmts => Quoted others (stmts.map .statement)) clauseBody.parse c
  declarators : ∀ noIn, Repeats .same 1 (fun names => Quoted others (names.map .declarator))
    (declarators noIn).parse c
  parameters : Repeats .any 1 (fun _ => True) parameters.parse c
  expression : ∀ noIn, Repeats .closing 1 (Expr.Quotable others)
    (expression noIn).parse c
  commaParts : ∀ noIn, Repeats .closing 0 (fun exprs => Quoted others (exprs.map .expression))
    (commaParts noIn).parse c
  assignment : ∀ noIn, Repeats .closing 1 (Expr.Quotable others)
    (assignment noIn).parse c
  binary : ∀ least noIn, Repeats .closing 1 (Expr.Quotable others)
    (binary least noIn).parse c
  binaryRest : ∀ least noIn left b read, left.Chained others noIn b read c →
    Repeats .closing 0 (Expr.Quotable others)
      (binaryRest least noIn left).parse c
  unary : Repeats .closing 1 (Expr.Quotable others) unary.parse c
  suffixes : ∀ target b read, target.Targeted others b read c →
    Repeats .closing 0 (Expr.Quotable others) (suffixes target).parse c
  members : ∀ target b read, target.Targeted others b read c →
    Repeats .closing 0 (Expr.Quotable others) (members target).parse c
  construction : c.current.kind = .keyword .new →
    Repeats .closing 1 (Expr.Quotable others) construction.parse c
  elements : ∀ close, Repeats .any 1 (fun exprs => Quoted others (exprs.map .expression))
    (elements close).parse c

namespace Grammar

variable {others : List Token} {b c d : Cursor} {read more : List Token} {target node : Expr}

theorem leads_of_primary (h : primary Production.parse c = .ok (expr, d)) :
    c.current.kind ≠ .keyword .new ∧ c.current.kind.Leads := by
  unfold primary at h
  rw [TokenReader.peek_bind] at h
  dsimp only at h
  cases hk : c.current.kind with
  | name | number | string => exact ⟨nofun, rfl, rfl⟩
  | endOfFile =>
    rw [hk] at h
    cases h
  | keyword word =>
    rw [hk] at h
    cases word <;> first | exact ⟨by decide, rfl, rfl⟩ | cases h
  | symbol mark =>
    rw [hk] at h
    cases mark <;> first | exact ⟨by decide, rfl, rfl⟩ | cases h

theorem resumes_primary (h : Again .any (primary Production.parse) c read target d)
    (hc : c.Closed) (hr : read ≠ []) (hn : c.current.kind ≠ .keyword .new) :
    Resumes .closing (call Production.parse) (suffixes Production.parse target) c read d := by
  apply ((h.bind (suffixes Production.parse)).weaken rfl).congr_left hc hr
  intro c' _ hcurrent
  exact Production.isAt_of_ne (by rwa [hcurrent]) _

theorem resumes_construction (h : Again .closing (construction Production.parse) c read target d)
    (hc : c.Closed) (hr : read ≠ []) (hn : c.current.kind = .keyword .new) :
    Resumes .closing (call Production.parse) (suffixes Production.parse target) c read d := by
  apply (h.bind (suffixes Production.parse)).congr_left hc hr
  intro c' _ hcurrent
  change (if (c'.current.kind == .keyword .new) = true then _ else _ : TokenReader Expr) c' = _
  rw [hcurrent, hn]
  rfl

theorem resumes_arguments (target : Expr)
    (h : Again .any (argumentList Production.parse) c more arguments d) (hc : c.Closed)
    (hr : more ≠ []) (hk : c.current.kind = .symbol .leftParen) :
    Resumes .any (suffixes Production.parse target)
      (suffixes Production.parse (.call ⟨target.range.start, d.stop⟩ target arguments)) c more d := by
  have hmore := h.bind fun arguments => TokenReader.rangeFrom target.range.start >>= fun range =>
    (Production.suffixes (.call range target arguments)).parse
  apply (hmore.congr_left hc hr ?_).congr_right
  · intro e he hs
    rw [← hs]
    exact Production.parse_eq_read
      (p := .suffixes (.call ⟨target.range.start, e.stop⟩ target arguments)) he trivial
  · intro c' _ hcurrent
    unfold suffixes
    rw [TokenReader.peek_bind, hcurrent, hk]

theorem resumes_memberSuffix (h : Again .any (memberSuffix Production.parse target) c more node d)
    (hc : c.Closed) (hr : more ≠ [])
    (hk : c.current.kind = .symbol .dot ∨ c.current.kind = .symbol .leftBracket) :
    Resumes .any (suffixes Production.parse target) (suffixes Production.parse node) c more d := by
  apply ((h.bind fun node => (Production.suffixes node).parse).congr_left hc hr ?_).congr_right
  · exact fun e he _ => Production.parse_eq_read (p := .suffixes node) he trivial
  · intro c' _ hcurrent
    unfold suffixes
    rw [TokenReader.peek_bind, hcurrent]
    rcases hk with hk | hk
    · rw [hk]
    · rw [hk]

end Grammar

open Grammar

namespace Expr.Targeted

variable {others : List Token} {b c d : Cursor} {read more : List Token} {target node : Expr}

/-- What stands behind a target is a part of the next one. -/
theorem step (h : target.Targeted others b read c)
    (hn : Resumes .any (suffixes Production.parse target) (suffixes Production.parse node) c more d)
    (hr : more ≠ []) (hp : node.PartsQuotable others) :
    node.Targeted others b (read ++ more) d := by
  have hresumes : Resumes .closing (Grammar.call Production.parse)
      (suffixes Production.parse node) b (read ++ more) d :=
    h.resumes.trans h.rests.closed (hn.weaken rfl) (.inr hr)
  exact ⟨h.rests, h.leads, hresumes, hresumes.quoted h.rests hp (lone_target hresumes h.leads)⟩

theorem of_primary (hc : c.Rests others) (hr : read ≠ []) (ht : target.PartsQuotable others)
    (h : Again .any (primary Production.parse) c read target d) :
    target.Targeted others c read d := by
  obtain ⟨hn, hl⟩ := leads_of_primary (h.reads (h.rests hc).closed)
  have hresumes := resumes_primary h hc.closed hr hn
  exact ⟨hc, hl, hresumes, hresumes.quoted hc ht (lone_target hresumes hl)⟩

theorem of_construction (hc : c.Rests others) (hk : c.current.kind = .keyword .new)
    (hr : read ≠ []) (ht : target.PartsQuotable others)
    (h : Again .closing (construction Production.parse) c read target d) :
    target.Targeted others c read d := by
  have hl : c.current.kind.Leads := by
    rw [hk]
    exact ⟨rfl, rfl⟩
  have hresumes := resumes_construction h hc.closed hr hk
  exact ⟨hc, hl, hresumes, hresumes.quoted hc ht (lone_target hresumes hl)⟩

end Expr.Targeted

/-- An operator and what stands behind it are a part of the next operand. -/
theorem Expr.Chained.step {others : List Token} {b c d : Cursor} {read more : List Token}
    {left right : Expr} (h : left.Chained others noIn b read c) (hc : c.Closed)
    (ho : c.current.kind.binaryOp? noIn = some op) (hr : more ≠ []) (hright : right.Quotable others)
    (hagain : Again .closing
      (TokenReader.bump >>= fun _ => (Production.binary op.rightPrecedence noIn).parse)
      c more right d) :
    (Expr.binary ⟨left.range.start, right.range.stop⟩ op left right).Chained others noIn b
      (read ++ more) d := by
  let node := Expr.binary ⟨left.range.start, right.range.stop⟩ op left right
  have hstep : Resumes .closing (binaryRest Production.parse 0 noIn left)
      (binaryRest Production.parse 0 noIn node) c more d := by
    apply ((hagain.bind fun right => (Production.binaryRest 0 noIn
      (.binary ⟨left.range.start, right.range.stop⟩ op left right)).parse).congr_left hc hr
        ?_).congr_right
    · exact fun e he _ => Production.parse_eq_read (p := .binaryRest 0 noIn node) he trivial
    · intro c' _ hcurrent
      unfold binaryRest
      rw [TokenReader.peek_bind, hcurrent, ho, bind_assoc]
      exact congrFun (if_neg (Nat.not_lt_zero _)) c'
  have hresumes : Resumes .closing (Grammar.binary Production.parse 0 noIn)
      (binaryRest Production.parse 0 noIn node) b (read ++ more) d :=
    h.resumes.trans h.rests.closed hstep (.inr hr)
  refine ⟨h.rests, hresumes, hresumes.quoted h.rests (h.quoted.append hright) ?_⟩
  exact lone_binary (hresumes.concludes fun e hk =>
    reads_binaryRest_stop (TokenKind.stops_of_isClosing noIn hk).binary rfl)

def Production.RepeatsBelow (others : List Token) (bound : Nat) : Prop :=
  ∀ d : Cursor, d.Rests others → d.ahead.length < bound → Production.RepeatsAt others d

namespace Production.RepeatsBelow

variable {others : List Token} {b c d : Cursor} {read more : List Token} {target node left : Expr}

theorem number (hc : c.Rests others) (hk : c.current.kind = .number) :
    Repeats .any 1 (Expr.PartsQuotable others) Grammar.number c := by
  refine .bump hc (by rw [hk]; nofun) fun token d _ _ => ?_
  split
  · exact .pure .nil
  · exact .throw _

theorem string (hc : c.Rests others) (hk : c.current.kind = .string) :
    Repeats .any 1 (Expr.PartsQuotable others) Grammar.string c :=
  .bump hc (by rw [hk]; nofun) fun _ _ _ _ => .pure .nil

theorem propertyName (hc : c.Rests others) :
    Repeats .any 1 (fun _ => True) Grammar.propertyName c := by
  by_cases hk : c.current.kind = .endOfFile
  · intro property d he
    have htext := hc.closed.text_current hk
    change (if c.current.text.toList.head?.any Character.isNameStart = true then _ else _ :
      TokenReader Identifier) _ = _ at he
    rw [htext] at he
    cases he
  · exact .bump hc hk fun _ _ _ _ => .ite (fun _ => .pure trivial) fun _ => .throw _

section Parts

variable {bound : Nat} (h : RepeatsBelow others bound) (hc : c.Rests others)
  (hn : c.ahead.length ≤ bound)
include h hc hn

theorem parenthesized :
    Repeats .any 1 (Expr.Quotable others)
      (Grammar.parenthesized Production.parse) c := by
  refine .symbol hc fun _ c₁ hc hlt => ?_
  refine .before hc ((h c₁ hc (by omega)).expression false) fun expr c₂ hc _ hexpr => ?_
  exact .symbol hc fun _ _ _ _ => .pure hexpr

theorem argumentList :
    Repeats .any 1 (fun exprs => Quoted others (exprs.map .expression))
      (Grammar.argumentList Production.parse) c :=
  .symbol hc fun _ d hd hlt => ((h d hd (by omega)).elements .rightParen).weaken rfl

theorem parameterList :
    Repeats .any 1 (fun _ => True) (Grammar.parameterList Production.parse) c :=
  .symbol hc fun _ d hd hlt => (h d hd (by omega)).parameters.weaken rfl

theorem functionBody :
    Repeats .any 1 (fun body => Quoted others (body.map .statement))
      (Grammar.functionBody Production.parse) c :=
  .symbol hc fun _ d hd hlt => (h d hd (by omega)).statements.weaken rfl

theorem arrayLiteral (hk : c.current.kind = .symbol .leftBracket) :
    Repeats .any 1 (Expr.PartsQuotable others)
      (Grammar.arrayLiteral Production.parse) c := by
  refine .bump hc (by rw [hk]; nofun) fun token c₁ hc hlt => ?_
  refine .bind hc ((h c₁ hc (by omega)).elements .rightBracket) rfl fun elements d _ _ he => ?_
  exact .rangeFrom (.pure he)

theorem functionExpression (hk : c.current.kind = .keyword .function) :
    Repeats .any 1 (Expr.PartsQuotable others)
      (Grammar.functionExpression Production.parse) c := by
  refine .bump hc (by rw [hk]; nofun) fun token c₁ hc hlt => ?_
  have hrest (name : Option Identifier) (d : Cursor) (hd : d.Rests others)
      (hlt : d.ahead.length < c.ahead.length) :
      Repeats .any 1 (Expr.PartsQuotable others)
        (Grammar.parameterList Production.parse >>= fun parameters =>
          Grammar.functionBody Production.parse >>= fun body =>
            TokenReader.rangeFrom token.range.start >>= fun range =>
              pure (.function range name parameters body)) d := by
    refine .bind hd (parameterList h hd (by omega)) rfl fun parameters e he hlt _ => ?_
    refine .bind he (functionBody h he (by omega)) rfl fun body _ _ _ hbody => ?_
    exact .rangeFrom (.pure (((Quoted.identifiers _).append (Quoted.identifiers _)).append hbody))
  refine (Repeats.isAt_of (.ite (fun _ => ?_) fun _ => ?_) (.inl rfl)).relax
  · refine .bind hc (.map (Q := fun _ => True) hc (.identifier hc) fun _ => id) rfl
      fun name d hd hlt _ => ?_
    exact (hrest name d hd (by omega)).relax
  · exact hrest none c₁ hc hlt

theorem primary_children :
    Repeats .any 1 (Expr.PartsQuotable others)
      (Grammar.primary Production.parse) c := by
  refine .peek_of ?_ (.inl rfl)
  dsimp only
  split
  · next hk => exact .bump hc (by rw [hk]; nofun) fun _ _ _ _ => .pure .nil
  · next hk => exact number hc hk
  · next hk => exact string hc hk
  · next hk => exact .bump hc (by rw [hk]; nofun) fun _ _ _ _ => .pure .nil
  · next hk => exact .bump hc (by rw [hk]; nofun) fun _ _ _ _ => .pure .nil
  · next hk => exact .bump hc (by rw [hk]; nofun) fun _ _ _ _ => .pure .nil
  · exact (parenthesized h hc hn).mono fun _ he => he.children
  · next hk => exact arrayLiteral h hc hn hk
  · next hk => exact functionExpression h hc hn hk
  · exact .unexpected _

theorem primary :
    Repeats .any 1 (Expr.Quotable others) (Grammar.primary Production.parse) c :=
  (primary_children h hc hn).gain fun _ _ _ hr ht hagain =>
    (Expr.Targeted.of_primary hc hr ht hagain).quoted

theorem memberSuffix (ht : target.Quotable others) :
    Repeats .any 1 (Expr.PartsQuotable others) (Grammar.memberSuffix Production.parse target) c := by
  refine .eat_of hc nofun (fun c₁ hc hlt => ?_) ?_ (.inl rfl)
  · refine .bind hc (propertyName hc) rfl fun property d _ _ _ => .rangeFrom (.pure ?_)
    exact ht.append (Quoted.identifiers [property])
  · refine .symbol hc fun _ c₁ hc hlt => ?_
    refine .before hc ((h c₁ hc (by omega)).expression false) fun index c₂ hc _ hindex => ?_
    exact .symbol hc fun _ d _ _ => .rangeFrom (.pure (ht.append hindex))

/-- A member access, and what remains to be read behind it. -/
theorem memberSuffix_bind (ht : target.Targeted others b read c)
    (hk : c.current.kind = .symbol .dot ∨ c.current.kind = .symbol .leftBracket)
    {rest : Expr → TokenReader Expr}
    (hrest : ∀ node d read, d.Rests others → d.ahead.length < c.ahead.length →
      node.Targeted others b read d → Repeats .closing 0 (Expr.Quotable others) (rest node) d) :
    Repeats .closing 1 (Expr.Quotable others)
      (Grammar.memberSuffix Production.parse target >>= rest) c := by
  refine .bind_again hc (memberSuffix h hc hn ht.quoted) rfl
    fun node d more hd hlt hr hnode hagain => ?_
  exact hrest node d _ hd hlt (ht.step (resumes_memberSuffix hagain hc.closed hr hk) hr hnode)

theorem members (ht : target.Targeted others b read c) :
    Repeats .closing 0 (Expr.Quotable others) (Grammar.members Production.parse target) c := by
  have hmore (hk : c.current.kind = .symbol .dot ∨ c.current.kind = .symbol .leftBracket) :=
    memberSuffix_bind h hc hn ht hk fun node d _ hd hlt ht =>
      (h d hd (by omega)).members node b _ ht
  refine .peek_closing (b := target) (fun token hk => ?_) ?_
  · rcases TokenKind.eq_of_isClosing hk with hk | hk
    · rw [hk]
    · rw [hk]
  · split
    · next hk => exact .inl (hmore (.inl hk))
    · next hk => exact .inl (hmore (.inr hk))
    · exact .inr ⟨rfl, ht.quoted⟩

theorem suffixes (ht : target.Targeted others b read c) :
    Repeats .closing 0 (Expr.Quotable others) (Grammar.suffixes Production.parse target) c := by
  have hmore (hk : c.current.kind = .symbol .dot ∨ c.current.kind = .symbol .leftBracket) :=
    memberSuffix_bind h hc hn ht hk fun node d _ hd hlt ht =>
      (h d hd (by omega)).suffixes node b _ ht
  refine .peek_closing (b := target) (fun token hk => ?_) ?_
  · rcases TokenKind.eq_of_isClosing hk with hk | hk
    · rw [hk]
    · rw [hk]
  · split
    · next hk =>
      refine .inl (.bind_again hc (argumentList h hc hn) rfl
        fun arguments d more hd hlt hr ha hagain => .rangeFrom ?_)
      have hstep := resumes_arguments target hagain hc.closed hr hk
      exact (h d hd (by omega)).suffixes _ b _ (ht.step hstep hr (ht.quoted.append ha))
    · next hk => exact .inl (hmore (.inl hk))
    · next hk => exact .inl (hmore (.inr hk))
    · exact .inr ⟨rfl, ht.quoted⟩

theorem construction_children (hk : c.current.kind = .keyword .new) :
    Repeats .closing 1 (Expr.PartsQuotable others) (Grammar.construction Production.parse) c := by
  refine .bump hc (by rw [hk]; nofun) fun token c₁ hc hlt => ?_
  have hrest (callee : Expr) (d : Cursor) (read : List Token) (hd : d.Rests others)
      (hlt' : d.ahead.length < c₁.ahead.length) (ht : callee.Targeted others c₁ read d) :
      Repeats .closing 0 (Expr.PartsQuotable others)
        (Grammar.members Production.parse callee >>= fun callee =>
          TokenReader.isAt (.symbol .leftParen) >>= fun given =>
            if given = true then
              Grammar.argumentList Production.parse >>= fun arguments =>
                TokenReader.rangeFrom token.range.start >>= fun range =>
                  pure (.new range callee arguments)
            else
              TokenReader.rangeFrom token.range.start >>= fun range =>
                pure (.new range callee [])) d := by
    refine .andThen hd (members h hd (by omega) ht) rfl fun callee e he hle hcallee => ?_
    refine .isAt_closing rfl (fun _ => ?_) fun _ => .rangeFrom (.pure (hcallee.append .nil))
    refine .bind he (argumentList h he (by omega)) rfl fun arguments _ _ _ ha => ?_
    exact .rangeFrom (.pure (hcallee.append ha))
  refine (Repeats.isAt_of (.ite (fun hk => ?_) fun _ => ?_) (.inl rfl)).relax
  · have hk := beq_iff_eq.1 hk
    refine .bind_again hc ((h c₁ hc (by omega)).construction hk) rfl
      fun callee d read hd hlt' hr hcallee hagain => ?_
    have hread := hagain.congr_left hc.closed hr fun c' hclosed hcurrent =>
      (Production.parse_eq_read (p := .construction) hclosed
        (show c'.current.kind = _ by rw [hcurrent, hk])).symm
    exact hrest callee d read hd hlt' (.of_construction hc hk hr hcallee.children hread)
  · refine .bind_again hc (primary_children h hc (by omega)) rfl
      fun callee d read hd hlt' hr hcallee hagain => ?_
    exact hrest callee d read hd hlt' (.of_primary hc hr hcallee hagain)

theorem construction (hk : c.current.kind = .keyword .new) :
    Repeats .closing 1 (Expr.Quotable others) (Grammar.construction Production.parse) c :=
  (construction_children h hc hn hk).gain fun _ _ _ hr ht hagain =>
    (Expr.Targeted.of_construction hc hk hr ht hagain).quoted

theorem call :
    Repeats .closing 1 (Expr.Quotable others) (Grammar.call Production.parse) c := by
  refine .isAt_of (.ite (fun hk => ?_) fun _ => ?_) (.inl rfl)
  · have hk := beq_iff_eq.1 hk
    refine .bind_again hc (construction_children h hc hn hk) rfl
      fun target d read hd hlt hr ht hagain => ?_
    exact suffixes h hd (by omega) (.of_construction hc hk hr ht hagain)
  · refine .bind_again hc (primary_children h hc hn) rfl
      fun target d read hd hlt hr ht hagain => ?_
    exact suffixes h hd (by omega) (.of_primary hc hr ht hagain)

theorem postfixUpdate_children :
    Repeats .closing 1 (Expr.PartsQuotable others) (Grammar.postfixUpdate Production.parse) c := by
  refine .bind hc (call h hc hn) rfl fun target d hd hlt ht => ?_
  refine .peek_closing (b := target) (fun token hk => ?_) ?_
  · rw [(TokenKind.stops_of_isClosing false hk).update]
  · split
    · next op ho =>
      by_cases hnewline : d.current.newlineBefore = true
      · exact .inr ⟨if_pos hnewline, ht.children⟩
      · rw [if_neg hnewline]
        refine .inl (.bump hd (by rintro hk; rw [hk] at ho; cases ho) fun _ _ _ _ => .pure ht)
    · exact .inr ⟨rfl, ht.children⟩

theorem unary :
    Repeats .closing 1 (Expr.Quotable others) (Grammar.unary Production.parse) c := by
  have hparts : Repeats .closing 1 (Expr.PartsQuotable others) (Grammar.unary Production.parse) c := by
    refine .peek_of ?_ (.inl rfl)
    dsimp only
    split
    · next op ho =>
      refine .bump hc (by rintro hk; rw [hk] at ho; cases ho) fun _ c₁ hc hlt => ?_
      exact .bind hc (h c₁ hc (by omega)).unary rfl fun operand _ _ _ ht => .pure ht
    · split
      · next op ho =>
        refine .bump hc (by rintro hk; rw [hk] at ho; cases ho) fun _ c₁ hc hlt => ?_
        exact .bind hc (h c₁ hc (by omega)).unary rfl fun target _ _ _ ht => .pure ht
      · exact postfixUpdate_children h hc hn
  exact hparts.gain fun _ _ _ _ ht hagain => hagain.quoted hc ht (lone_unary hagain.concludes)

theorem binaryRest (hl : left.Chained others noIn b read c) :
    Repeats .closing 0 (Expr.Quotable others)
      (Grammar.binaryRest Production.parse least noIn left) c := by
  refine .peek_closing (b := left) (fun token hk => ?_) ?_
  · rw [(TokenKind.stops_of_isClosing noIn hk).binary]
  split
  · next op ho =>
    by_cases hlt : op.precedence < least
    · exact .inr ⟨if_pos hlt, hl.quoted⟩
    rw [if_neg hlt, ← bind_assoc]
    have hright : Repeats .closing 1 (Expr.Quotable others) (TokenReader.bump >>= fun _ =>
        (Production.binary op.rightPrecedence noIn).parse) c := by
      refine .bump hc (by rintro hk; rw [hk] at ho; cases ho) fun _ c₁ hc hlt => ?_
      exact ((h c₁ hc (by omega)).binary _ noIn).relax
    refine .inl (.bind_again hc hright rfl fun right d more hd hlt hr hright hagain => ?_)
    exact (h d hd (by omega)).binaryRest least noIn _ b _ (hl.step hc.closed ho hr hright hagain)
  · exact .inr ⟨rfl, hl.quoted⟩

theorem binary :
    Repeats .closing 1 (Expr.Quotable others) (Grammar.binary Production.parse least noIn) c := by
  refine .bind_again hc (unary h hc hn) rfl fun left d read hd hlt hr hleft hagain => ?_
  exact binaryRest h hd (by omega) ⟨hc, hagain.bind _, hleft⟩

theorem conditional :
    Repeats .closing 1 (Expr.Quotable others) (Grammar.conditional Production.parse noIn) c := by
  have hparts : Repeats .closing 1 (Expr.PartsQuotable others)
      (Grammar.conditional Production.parse noIn) c := by
    refine .bind hc (binary h hc hn) rfl fun test c₁ hc hlt ht => ?_
    refine .eat_closing hc rfl (fun c₂ hc hlt => ?_) fun _ => .pure ht.children
    refine .bind hc ((h c₂ hc (by omega)).assignment false) rfl fun whenTrue c₃ hc hlt hw => ?_
    refine .symbol hc fun _ c₄ hc hlt => ?_
    refine .bind hc ((h c₄ hc (by omega)).assignment noIn) rfl fun whenFalse _ _ _ hf => ?_
    exact .pure (ht.append (hw.append hf))
  exact hparts.gain fun _ _ _ _ ht hagain => hagain.quoted hc ht (lone_conditional hagain.concludes)

theorem assignment :
    Repeats .closing 1 (Expr.Quotable others) (Grammar.assignment Production.parse noIn) c := by
  have hparts : Repeats .closing 1 (Expr.PartsQuotable others)
      (Grammar.assignment Production.parse noIn) c := by
    refine .bind hc (conditional h hc hn) rfl fun target c₁ hc hlt ht => ?_
    refine .peek_closing (b := target) (fun token hk => ?_) ?_
    · rw [(TokenKind.stops_of_isClosing noIn hk).assign]
    split
    · next op ho =>
      refine .inl (.ite (fun _ => ?_) fun _ => .throw _)
      refine .bump hc (by rintro hk; rw [hk] at ho; cases ho) fun _ c₂ hc hlt => ?_
      refine .bind hc ((h c₂ hc (by omega)).assignment noIn) rfl fun value _ _ _ hv => ?_
      exact .pure (ht.append hv)
    · exact .inr ⟨rfl, ht.children⟩
  exact hparts.gain fun _ _ _ _ ht hagain => hagain.quoted hc ht (lone_assignment hagain.concludes)

theorem commaParts (hk : c.current.kind ≠ .symbol .comma → k = 0) :
    Repeats .closing k (fun exprs => Quoted others (exprs.map .expression))
      (Grammar.commaParts Production.parse noIn) c := by
  refine .eat_closing hc rfl (fun c₁ hc hlt => ?_) fun hnot => hk hnot ▸ .pure .nil
  refine .bind hc (assignment h hc (by omega)) rfl fun part c₂ hc hlt hp => ?_
  refine .andThen hc ((h c₂ hc (by omega)).commaParts noIn) rfl fun parts _ _ _ hps => ?_
  exact .pure (hp.append hps)

theorem expression :
    Repeats .closing 1 (Expr.Quotable others) (Grammar.expression Production.parse noIn) c := by
  have hparts : Repeats .closing 1 (Expr.PartsQuotable others)
      (Grammar.expression Production.parse noIn) c := by
    refine .bind hc (assignment h hc hn) rfl fun first c₁ hc hlt hf => ?_
    refine .isAt_closing rfl (fun hk => ?_) fun _ => .pure hf.children
    refine .bind hc (commaParts h hc (by omega) (absurd hk)) rfl fun parts _ _ _ hps => ?_
    exact .rangeFrom (.pure (hf.append hps))
  exact hparts.gain fun _ _ _ _ ht hagain => hagain.quoted hc ht (lone_expression hagain.concludes)

theorem elements :
    Repeats .any 1 (fun exprs => Quoted others (exprs.map .expression))
      (Grammar.elements Production.parse close) c := by
  refine .eat_of hc nofun (fun _ _ _ => .pure .nil) ?_ (.inl rfl)
  have hmore (element : Expr) (he : element.Quotable others) (d : Cursor) (hd : d.Rests others)
      (hlt : d.ahead.length < c.ahead.length) :
      Repeats .any 1 (fun exprs => Quoted others (exprs.map .expression))
        ((Production.elements close).parse >>= fun elements => pure (element :: elements)) d :=
    .bind hd ((h d hd (by omega)).elements close) rfl fun _ _ _ _ hes => .pure (he.append hes)
  refine .before hc (assignment h hc hn) fun element c₁ hc hlt he => ?_
  refine .isAt_of (.ite (fun _ => ?_) fun _ => hmore element he c₁ hc hlt) (.inl rfl)
  exact .symbol hc fun _ d hd hlt' => (hmore element he d hd (by omega)).relax

end Parts

end Production.RepeatsBelow

end FlowLint
