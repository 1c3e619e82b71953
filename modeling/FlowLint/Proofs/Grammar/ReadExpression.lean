import FlowLint.Proofs.Grammar.Reader

namespace FlowLint
set_option autoImplicit true

/-- What a production has read stands between the cursors in front of it and behind it. The rest of
an expression stands behind every place where its first part does. -/
def Production.Spelled : {α : Type} → Production α → α → Cursor → Cursor → Prop
  | _, .program, stmts, c, d => Stands (.stmts stmts) c d ∧ d.current.kind = .endOfFile
  | _, .statement, stmt, c, d => Stands (.stmt stmt) c d
  | _, .statements, stmts, c, d => ∃ m, Stands (.stmts stmts) c m ∧ m.PassesSymbol .rightBrace d
  | _, .clauses, cases, c, d => ∃ m, Stands (.clauses cases) c m ∧ m.PassesSymbol .rightBrace d
  | _, .clauseBody, stmts, c, d => Stands (.stmts stmts) c d
  | _, .declarators _, names, c, d => Stands (.declarators names) c d
  | _, .parameters, names, c, d => c.PassesParameters names d
  | _, .expression _, expr, c, d => Stands (.expr expr) c d
  | _, .commaParts _, exprs, c, d => Stands (.parts exprs) c d
  | _, .assignment _, expr, c, d => Stands (.expr expr) c d
  | _, .binary _ _, expr, c, d => Stands (.expr expr) c d
  | _, .binaryRest _ _ left, expr, c, d => ∀ b, Stands (.expr left) b c → Stands (.expr expr) b d
  | _, .unary, expr, c, d => Stands (.expr expr) c d
  | _, .suffixes target, expr, c, d => ∀ b, Stands (.expr target) b c → Stands (.expr expr) b d
  | _, .members target, expr, c, d => ∀ b, Stands (.expr target) b c → Stands (.expr expr) b d
  | _, .construction, expr, c, d => Stands (.expr expr) c d
  | _, .elements close, exprs, c, d => Stands (.elements close exprs) c d

/-- Where a production may be read: a `new` expression only at its keyword. -/
def Production.Admits : {α : Type} → Production α → Cursor → Prop
  | _, .construction, c => c.current.kind = .keyword .new
  | _, _, _ => True

/-- What a grammar reads is spelled by the tokens it is read from. -/
def Grammar.Sound (g : Grammar) : Prop :=
  ∀ {α : Type} (p : Production α) (c : Cursor), c.Closed → p.Admits c →
    (g p).Yields c fun a d => p.Spelled a c d

theorem TokenKind.binaryOp?_false {kind : TokenKind} (h : kind.binaryOp? noIn = some op) :
    kind.binaryOp? false = some op := by
  cases noIn with
  | false => exact h
  | true =>
    unfold binaryOp? at *
    split at h <;> simp_all

namespace Grammar.Sound

variable {g : Grammar} {c : Cursor} {target : Expr}

theorem parenthesized (hg : g.Sound) (hc : c.Closed) :
    (Grammar.parenthesized g).Yields c fun expr d => Stands (.parenthesized expr) c d := by
  refine .symbol hc fun c₁ hc hl => ?_
  refine .bind (hg (.expression false) c₁ hc trivial) fun expr c₂ hc h => ?_
  exact .symbol hc fun d hc hr => .pure hc (.parenthesized hl h hr)

theorem argumentList (hg : g.Sound) (hc : c.Closed) :
    (Grammar.argumentList g).Yields c fun exprs d =>
      ∃ m, c.PassesSymbol .leftParen m ∧ Stands (.elements .rightParen exprs) m d := by
  refine .symbol hc fun m hm hl => ?_
  exact (hg (.elements .rightParen) m hm trivial).mono fun exprs d h => ⟨m, hl, h⟩

theorem parameterList (hg : g.Sound) (hc : c.Closed) :
    (Grammar.parameterList g).Yields c fun names d =>
      ∃ m, c.PassesSymbol .leftParen m ∧ m.PassesParameters names d := by
  refine .symbol hc fun m hm hl => ?_
  exact (hg .parameters m hm trivial).mono fun names d h => ⟨m, hl, h⟩

theorem functionBody (hg : g.Sound) (hc : c.Closed) :
    (Grammar.functionBody g).Yields c fun body d =>
      ∃ c₁ c₂, c.PassesSymbol .leftBrace c₁ ∧ Stands (.stmts body) c₁ c₂ ∧
        c₂.PassesSymbol .rightBrace d := by
  refine .symbol hc fun c₁ hc hl => ?_
  exact (hg .statements c₁ hc trivial).mono fun body d ⟨c₂, h, hr⟩ => ⟨c₁, c₂, hl, h, hr⟩

theorem number (hc : c.Closed) (hk : c.current.kind = .number) :
    Grammar.number.Yields c fun expr d => Stands (.expr expr) c d := by
  refine .bump hc (by rw [hk]; nofun) fun d hd hp => ?_
  split
  · next value hv => exact .pure hd (.number hp hk hv)
  · exact .throw

theorem string (hc : c.Closed) (hk : c.current.kind = .string) :
    Grammar.string.Yields c fun expr d => Stands (.expr expr) c d :=
  .bump hc (by rw [hk]; nofun) fun d hd hp => .pure hd (.string hp hk)

theorem arrayLiteral (hg : g.Sound) (hc : c.Closed) (hk : c.current.kind = .symbol .leftBracket) :
    (Grammar.arrayLiteral g).Yields c fun expr d => Stands (.expr expr) c d := by
  refine .bump hc (by rw [hk]; nofun) fun c₁ hc hl => ?_
  refine .bind (hg (.elements .rightBracket) c₁ hc trivial) fun elements d hd h => ?_
  exact .rangeFrom (.pure hd (.array ⟨_, hl, hk⟩ h))

theorem functionExpression (hg : g.Sound) (hc : c.Closed)
    (hk : c.current.kind = .keyword .function) :
    (Grammar.functionExpression g).Yields c fun expr d => Stands (.expr expr) c d := by
  refine .bump hc (by rw [hk]; nofun) fun c₁ hc hf => ?_
  refine .isAt (.ite_bind (P := fun name d => c₁.PassesFunctionName name d) (fun _ => ?_)
    (fun h => ?_) fun name c₂ hc hn => ?_)
  · exact .map (.identifier hc) fun _ _ => .present
  · exact .pure hc (.absent (mt beq_iff_eq.2 h))
  refine .bind (parameterList hg hc) fun parameters c₃ hc ⟨m, hl, hp⟩ => ?_
  refine .bind (functionBody hg hc) fun body d hd ⟨c₄, c₅, ho, hb, hr⟩ => ?_
  exact .rangeFrom (.pure hd (.functionExpr ⟨_, hf, hk⟩ hn hl hp ho hb hr))

theorem primary (hg : g.Sound) (hc : c.Closed) :
    (Grammar.primary g).Yields c fun expr d => Stands (.expr expr) c d := by
  refine .peek ?_
  dsimp only
  split
  · next hk => exact .bump hc (by rw [hk]; nofun) fun d hd hp => .pure hd (.name hp hk)
  · next hk => exact number hc hk
  · next hk => exact string hc hk
  · next hk => exact .bump hc (by rw [hk]; nofun) fun d hd hp => .pure hd (.boolean hp hk)
  · next hk => exact .bump hc (by rw [hk]; nofun) fun d hd hp => .pure hd (.boolean hp hk)
  · next hk => exact .bump hc (by rw [hk]; nofun) fun d hd hp => .pure hd (.null hp hk)
  · exact (parenthesized hg hc).mono fun expr d h => .parens h
  · next hk => exact arrayLiteral hg hc hk
  · next hk => exact functionExpression hg hc hk
  · exact .unexpected

theorem propertyName (hc : c.Closed) :
    Grammar.propertyName.Yields c fun property d => ∃ token, c.Passes token d ∧
      token.text.toList.head?.any Character.isNameStart = true ∧
      property = ⟨token.text, token.range⟩ := by
  by_cases hk : c.current.kind = .endOfFile
  · intro property d he
    change (if c.current.text.toList.head?.any Character.isNameStart = true then _ else _ :
      TokenReader Identifier) c.advance = _ at he
    rw [hc.text_current hk] at he
    cases he
  · refine .bump hc hk fun d hd hp => ?_
    exact .ite (fun hs => .pure hd ⟨_, hp, hs, rfl⟩) fun _ => .throw

theorem memberSuffix (hg : g.Sound) (hc : c.Closed) :
    (Grammar.memberSuffix g target).Yields c fun expr d =>
      ∀ b, Stands (.expr target) b c → Stands (.expr expr) b d := by
  refine .eat hc nofun (fun c₁ hc hd => ?_) fun _ => ?_
  · refine .bind (propertyName hc) ?_
    rintro property d hd' ⟨token, hp, hs, rfl⟩
    exact .rangeFrom (.pure hd' fun b hb => .member hb hd hp hs)
  · refine .symbol hc fun c₁ hc hl => ?_
    refine .bind (hg (.expression false) c₁ hc trivial) fun index c₂ hc hi => ?_
    refine .symbol hc fun d hd hr => ?_
    exact .rangeFrom (.pure hd fun b hb => .subscript hb hl hi hr)

theorem members (hg : g.Sound) (hc : c.Closed) :
    (Grammar.members g target).Yields c fun expr d =>
      ∀ b, Stands (.expr target) b c → Stands (.expr expr) b d := by
  have hmore : (Grammar.memberSuffix g target >>= fun target => g (.members target)).Yields c
      fun expr d => ∀ b, Stands (.expr target) b c → Stands (.expr expr) b d := by
    refine .bind (memberSuffix hg hc) fun member m hm h => ?_
    exact (hg (.members member) m hm trivial).mono fun expr d h' b hb => h' b (h b hb)
  refine .peek ?_
  split
  · exact hmore
  · exact hmore
  · exact .pure hc fun b hb => hb

theorem suffixes (hg : g.Sound) (hc : c.Closed) :
    (Grammar.suffixes g target).Yields c fun expr d =>
      ∀ b, Stands (.expr target) b c → Stands (.expr expr) b d := by
  have hmore : (Grammar.memberSuffix g target >>= fun target => g (.suffixes target)).Yields c
      fun expr d => ∀ b, Stands (.expr target) b c → Stands (.expr expr) b d := by
    refine .bind (memberSuffix hg hc) fun member m hm h => ?_
    exact (hg (.suffixes member) m hm trivial).mono fun expr d h' b hb => h' b (h b hb)
  refine .peek ?_
  split
  · refine .bind (argumentList hg hc) fun arguments m hm ⟨c₁, hl, ha⟩ => .rangeFrom ?_
    refine (hg (.suffixes _) m hm ?_).mono fun expr d h b hb => h b (.call hb hl ha)
    exact trivial
  · exact hmore
  · exact hmore
  · exact .pure hc fun b hb => hb

theorem construction (hg : g.Sound) (hc : c.Closed) (hk : c.current.kind = .keyword .new) :
    (Grammar.construction g).Yields c fun expr d => Stands (.expr expr) c d := by
  refine .bump hc (by rw [hk]; nofun) fun c₁ hc hn => ?_
  refine .isAt (.ite_bind (fun h => hg .construction c₁ hc (beq_iff_eq.1 h))
    (fun _ => primary hg hc) fun callee c₂ hc hs => ?_)
  refine .bind (members hg hc) fun callee c₃ hc hm => ?_
  refine .isAt (.ite (fun h => ?_) fun h => ?_)
  · refine .bind (argumentList hg hc) fun arguments d hd ⟨m, hl, ha⟩ => ?_
    exact .rangeFrom (.pure hd (.new ⟨_, hn, hk⟩ (hm c₁ hs) hl ha))
  · exact .pure_bind (.rangeFrom (.pure hc (.bareNew ⟨_, hn, hk⟩ (hm c₁ hs) (mt beq_iff_eq.2 h))))

theorem call (hg : g.Sound) (hc : c.Closed) :
    (Grammar.call g).Yields c fun expr d => Stands (.expr expr) c d := by
  refine .isAt (.ite_bind (fun h => construction hg hc (beq_iff_eq.1 h)) (fun _ => primary hg hc)
    fun target m hm ht => ?_)
  exact (suffixes hg hm).mono fun expr d h => h c ht

theorem postfixUpdate (hg : g.Sound) (hc : c.Closed) :
    (Grammar.postfixUpdate g).Yields c fun expr d => Stands (.expr expr) c d := by
  refine .bind (call hg hc) fun target m hm ht => .peek ?_
  split
  · next op ho =>
    refine .ite (fun _ => .pure hm ht) fun hn => ?_
    refine .bump hm (fun hk => ?_) fun d hd hp => ?_
    · rw [hk] at ho
      cases ho
    · exact .pure hd (.after ht hp ho (Bool.eq_false_iff.2 hn))
  · exact .pure hm ht

theorem unary (hg : g.Sound) (hc : c.Closed) :
    (Grammar.unary g).Yields c fun expr d => Stands (.expr expr) c d := by
  refine .peek ?_
  dsimp only
  split
  · next op ho =>
    refine .bump hc (fun hk => ?_) fun c₁ hc hp => ?_
    · rw [hk] at ho
      cases ho
    · refine .bind (hg .unary c₁ hc trivial) fun operand d hd h => ?_
      exact .pure hd (.unary hp ho h)
  · split
    · next op ho =>
      refine .bump hc (fun hk => ?_) fun c₁ hc hp => ?_
      · rw [hk] at ho
        cases ho
      · refine .bind (hg .unary c₁ hc trivial) fun target d hd h => ?_
        exact .pure hd (.before hp ho h)
    · exact postfixUpdate hg hc

theorem binaryRest (hg : g.Sound) (hc : c.Closed) :
    (Grammar.binaryRest g least noIn target).Yields c fun expr d =>
      ∀ b, Stands (.expr target) b c → Stands (.expr expr) b d := by
  refine .peek ?_
  split
  · next op ho =>
    refine .ite (fun _ => .pure hc fun b hb => hb) fun _ => ?_
    refine .bump hc (fun hk => ?_) fun c₁ hc hp => ?_
    · rw [hk] at ho
      cases ho
    · refine .bind (hg (.binary _ noIn) c₁ hc ?_) fun right m hm hr => ?_
      · exact trivial
      refine (hg (.binaryRest least noIn _) m hm ?_).mono fun expr d h b hb =>
        h b (.binary hb hp (TokenKind.binaryOp?_false ho) hr)
      exact trivial
  · exact .pure hc fun b hb => hb

theorem binary (hg : g.Sound) (hc : c.Closed) :
    (Grammar.binary g least noIn).Yields c fun expr d => Stands (.expr expr) c d := by
  refine .bind (unary hg hc) fun left m hm hl => ?_
  exact (binaryRest hg hm).mono fun expr d h => h c hl

theorem conditional (hg : g.Sound) (hc : c.Closed) :
    (Grammar.conditional g noIn).Yields c fun expr d => Stands (.expr expr) c d := by
  refine .bind (binary hg hc) fun test c₁ hc ht => ?_
  refine .eat hc nofun (fun c₂ hc hq => ?_) fun _ => .pure hc ht
  refine .bind (hg (.assignment false) c₂ hc trivial) fun whenTrue c₃ hc hw => ?_
  refine .symbol hc fun c₄ hc hcolon => ?_
  refine .bind (hg (.assignment noIn) c₄ hc trivial) fun whenFalse d hd hf => ?_
  exact .pure hd (.conditional ht hq hw hcolon hf)

theorem assignment (hg : g.Sound) (hc : c.Closed) :
    (Grammar.assignment g noIn).Yields c fun expr d => Stands (.expr expr) c d := by
  refine .bind (conditional hg hc) fun target c₁ hc ht => .peek ?_
  split
  · next op ho =>
    refine .ite (fun ha => ?_) fun _ => .throw
    refine .bump hc (fun hk => ?_) fun c₂ hc hp => ?_
    · rw [hk] at ho
      cases ho
    · refine .bind (hg (.assignment noIn) c₂ hc trivial) fun value d hd hv => ?_
      exact .pure hd (.assign ht ha hp ho hv)
  · exact .pure hc ht

theorem commaParts (hg : g.Sound) (hc : c.Closed) :
    (Grammar.commaParts g noIn).Yields c fun exprs d => Stands (.parts exprs) c d := by
  refine .eat hc nofun (fun c₁ hc hcomma => ?_) fun h => .pure hc (.noParts h)
  refine .bind (assignment hg hc) fun part c₂ hc h => ?_
  refine .bind (hg (.commaParts noIn) c₂ hc trivial) fun parts d hd hp => ?_
  exact .pure hd (.parts hcomma h hp)

theorem expression (hg : g.Sound) (hc : c.Closed) :
    (Grammar.expression g noIn).Yields c fun expr d => Stands (.expr expr) c d := by
  refine .bind (assignment hg hc) fun first c₁ hc hf => ?_
  refine .isAt (.ite (fun h => ?_) fun _ => .pure hc hf)
  refine .bind (commaParts hg hc) fun parts d hd hp => .rangeFrom (.pure hd ?_)
  cases hp with
  | noParts hn => exact absurd (beq_iff_eq.1 h) hn
  | parts hcomma h hp => exact .sequence hf hcomma h hp

theorem elements (hg : g.Sound) (hc : c.Closed) :
    (Grammar.elements g close).Yields c fun exprs d => Stands (.elements close exprs) c d := by
  refine .eat hc nofun (fun d hd h => .pure hd (.noElements h)) fun hn => ?_
  refine .bind (assignment hg hc) fun element c₁ hc h => ?_
  refine .isAt (.ite (fun _ => ?_) fun hr => ?_)
  · refine .symbol hc fun c₂ hc hcomma => ?_
    refine .bind (hg (.elements close) c₂ hc trivial) fun elements d hd he => ?_
    exact .pure hd (.elements hn h hcomma he)
  · have hr : c₁.current.kind = .symbol close := by simpa using hr
    refine .bind (hg (.elements close) c₁ hc trivial) fun elements d hd he => ?_
    cases he with
    | noElements hp => exact .pure hd (.lastElement hn h hp)
    | lastElement hn' => exact absurd hr hn'
    | elements hn' => exact absurd hr hn'

end Grammar.Sound

end FlowLint
