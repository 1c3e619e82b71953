import FlowLint.Proofs.Grammar.RepeatExpression

namespace FlowLint
set_option autoImplicit true

open Piece (Quoted)
open TokenReader (Repeats)

namespace TokenReader.Repeats

variable {others : List Token} {c : Cursor} {kind : TokenKind} {x y : TokenReader α}
  {f : α → TokenReader β} {P : α → Prop} {Q : β → Prop}

theorem ite_bind {p : Prop} [Decidable p] (hc : c.Rests others) (hx : p → Repeats .same 0 P x c)
    (hy : ¬ p → Repeats .same 0 P y c)
    (hf : ∀ a d, d.Rests others → d.ahead.length ≤ c.ahead.length → P a →
      Repeats .same 0 Q (f a) d) : Repeats .same 0 Q (if p then x >>= f else y >>= f) c :=
  .ite (fun hp => .andThen hc (hx hp) rfl hf) fun hp => .andThen hc (hy hp) rfl hf

theorem eat_ite_bind (hc : c.Rests others) (hkind : kind ≠ .endOfFile)
    (hx : ∀ d, d.Rests others → d.ahead.length < c.ahead.length → Repeats .same 0 P x d)
    (hy : Repeats .same 0 P y c)
    (hf : ∀ a d, d.Rests others → d.ahead.length ≤ c.ahead.length → P a →
      Repeats .same 0 Q (f a) d) :
    Repeats .same 0 Q (eat kind >>= fun eaten => if eaten = true then x >>= f else y >>= f) c := by
  refine .eat_of hc hkind (fun d hd hlt => ?_) (.andThen hc hy rfl hf) (.inr rfl)
  exact .andThen hd (hx d hd hlt) rfl fun a e he hle => hf a e he (by omega)

end TokenReader.Repeats

namespace Production.RepeatsBelow

variable {others : List Token} {c : Cursor} {bound : Nat}

theorem emptyStatement (hc : c.Rests others) (hk : c.current.kind = .symbol .semicolon) :
    Repeats .same 1 (Stmt.Quotable others) Grammar.emptyStatement c :=
  .bump hc (by rw [hk]; nofun) fun _ _ _ _ => .rangeFrom (.pure (.node .nil trivial))

theorem jumpLabel (hc : c.Rests others) :
    Repeats .same 0 (fun _ => True) Grammar.jumpLabel c := by
  refine .peek_of (.ite (fun _ => ?_) fun _ => .pure trivial) (.inr rfl)
  exact (Repeats.map hc (.identifier hc) fun _ _ => trivial).weaken rfl

theorem jumpStatement (hc : c.Rests others) (hk : c.current.kind = .keyword kind.keyword) :
    Repeats .same 1 (Stmt.Quotable others) (Grammar.jumpStatement kind) c := by
  refine .bump hc (by rw [hk]; nofun) fun _ c₁ hc hlt => ?_
  refine .andThen hc (jumpLabel hc) rfl fun label c₂ hc hle _ => ?_
  refine .semicolon hc fun _ _ _ => .rangeFrom (.pure (.node ?_ trivial))
  exact Quoted.identifiers label.toList

theorem debuggerStatement (hc : c.Rests others) (hk : c.current.kind = .keyword .debugger) :
    Repeats .same 1 (Stmt.Quotable others) Grammar.debuggerStatement c := by
  refine .bump hc (by rw [hk]; nofun) fun _ c₁ hc hlt => ?_
  exact .semicolon hc fun _ _ _ => .rangeFrom (.pure (.node .nil trivial))

theorem forHead (h : RepeatsBelow others bound) (hc : c.Rests others) (hn : c.ahead.length < bound) :
    Repeats .same 0 (fun head => Quoted others (head.toList.map .statement))
      (Grammar.forHead Production.parse) c := by
  refine .peek_of (.ite (fun _ => .pure .nil) fun _ => ?_) (.inr rfl)
  dsimp only
  split
  · next kind hd =>
    have hk := DeclarationKind.kind_eq_of_declarationKind? hd
    refine .bump hc (by rw [hk]; nofun) fun _ c₁ hc hlt => ?_
    refine .bind hc ((h c₁ hc (by omega)).declarators true) rfl fun names _ _ _ hs => ?_
    exact .rangeFrom (.pure (.node hs trivial))
  · refine .bind hc ((h c hc (by omega)).expression true) rfl fun value _ _ _ hv => ?_
    exact .pure (.node hv trivial)

section Parts

variable (h : RepeatsBelow others bound) (hc : c.Rests others) (hn : c.ahead.length ≤ bound)
include h hc hn

theorem block :
    Repeats .any 1 (fun block => Quoted others [.block block]) (Grammar.block Production.parse) c := by
  refine .symbol hc fun token c₁ hc hlt => ?_
  refine .bind hc (h c₁ hc (by omega)).statements rfl fun body _ _ _ hbody => ?_
  exact .rangeFrom (.pure (.node hbody trivial))

theorem blockStatement :
    Repeats .same 1 (Stmt.Quotable others)
      (Grammar.blockStatement Production.parse) c :=
  .bind hc (block h hc hn) rfl fun ⟨_, _⟩ _ _ _ hb => .pure (.node hb.children trivial)

theorem declarators :
    Repeats .same 1 (fun names => Quoted others (names.map .declarator))
      (Grammar.declarators Production.parse noIn) c := by
  refine .bind hc (.identifier hc) rfl fun name c₁ hc hlt _ => ?_
  refine .eat_ite_bind (P := fun init => Quoted others (init.toList.map .expression)) hc nofun
    (fun c₂ hc hlt => ?_) (.pure .nil) fun init c₂ hc hle hi => ?_
  · exact .map hc (((h c₂ hc (by omega)).assignment noIn).weaken rfl) fun _ hv => hv
  have hdeclarator (range : Range) : Quoted others [.declarator ⟨range, name, init⟩] :=
    .node ((Quoted.identifiers [name]).append hi) trivial
  refine .rangeFrom (.eat_of hc nofun (fun c₃ hc hlt => ?_) (.pure (hdeclarator _)) (.inr rfl))
  refine .bind hc ((h c₃ hc (by omega)).declarators noIn) rfl fun names _ _ _ hs => ?_
  exact .pure ((hdeclarator _).append hs)

theorem declarationStatement (hk : c.current.kind = .keyword kind.keyword) :
    Repeats .same 1 (Stmt.Quotable others)
      (Grammar.declarationStatement Production.parse kind) c := by
  refine .bump hc (by rw [hk]; nofun) fun _ c₁ hc hlt => ?_
  refine .bind hc ((h c₁ hc (by omega)).declarators false) rfl fun names c₂ hc _ hs => ?_
  exact .semicolon hc fun _ _ _ => .rangeFrom (.pure (.node hs trivial))

theorem functionStatement (hk : c.current.kind = .keyword .function) :
    Repeats .same 1 (Stmt.Quotable others)
      (Grammar.functionStatement Production.parse) c := by
  refine .bump hc (by rw [hk]; nofun) fun _ c₁ hc hlt => ?_
  refine .bind hc (.identifier hc) rfl fun name c₂ hc hlt _ => ?_
  refine .bind hc (parameterList h hc (by omega)) rfl fun parameters c₃ hc hlt _ => ?_
  refine .bind hc (functionBody h hc (by omega)) rfl fun body _ _ _ hbody => ?_
  refine .rangeFrom (.pure (.node ?_ trivial))
  exact (Quoted.identifiers [name]).append ((Quoted.identifiers parameters).append hbody)

theorem ifStatement (hk : c.current.kind = .keyword .if) :
    Repeats .same 1 (Stmt.Quotable others)
      (Grammar.ifStatement Production.parse) c := by
  refine .bump hc (by rw [hk]; nofun) fun _ c₁ hc hlt => ?_
  refine .bind hc (parenthesized h hc (by omega)) rfl fun test c₂ hc hlt ht => ?_
  refine .bind hc (h c₂ hc (by omega)).statement rfl fun body c₃ hc hlt hb => ?_
  refine .eat_ite_bind (P := fun orElse => Quoted others (orElse.toList.map .statement)) hc nofun
    (fun c₄ hc hlt => ?_) (.pure .nil) fun orElse _ _ _ he => ?_
  · exact .map hc (h c₄ hc (by omega)).statement.relax fun _ hs => hs
  · exact .rangeFrom (.pure (.node (ht.append (hb.append he)) trivial))

theorem whileStatement (hk : c.current.kind = .keyword .while) :
    Repeats .same 1 (Stmt.Quotable others)
      (Grammar.whileStatement Production.parse) c := by
  refine .bump hc (by rw [hk]; nofun) fun _ c₁ hc hlt => ?_
  refine .bind hc (parenthesized h hc (by omega)) rfl fun test c₂ hc hlt ht => ?_
  refine .bind hc (h c₂ hc (by omega)).statement rfl fun body _ _ _ hb => ?_
  exact .rangeFrom (.pure (.node (ht.append hb) trivial))

theorem doStatement (hk : c.current.kind = .keyword .do) :
    Repeats .same 1 (Stmt.Quotable others)
      (Grammar.doStatement Production.parse) c := by
  refine .bump hc (by rw [hk]; nofun) fun token c₁ hc hlt => ?_
  refine .bind hc (h c₁ hc (by omega)).statement rfl fun body c₂ hc hlt hb => ?_
  refine .keyword hc fun _ c₃ hc hlt => ?_
  refine .bind hc (parenthesized h hc (by omega)) rfl fun test c₄ hc _ ht => ?_
  have hend (d : Cursor) : Repeats .same 0 (Stmt.Quotable others)
      (TokenReader.rangeFrom token.range.start >>= fun range => pure (.doStmt range body test)) d :=
    .rangeFrom (.pure (.node (hb.append ht) trivial))
  exact .eat_of hc nofun (fun d _ _ => hend d) (hend c₄) (.inr rfl)

theorem forRest (hi : Quoted others (init.toList.map .statement)) :
    Repeats .same 1 (Stmt.Quotable others) (Grammar.forRest Production.parse start init) c := by
  have hoption {d : Cursor} (hd : d.Rests others) (hlt : d.ahead.length < c.ahead.length) :
      Repeats .same 0 (fun value => Quoted others (value.toList.map .expression))
        (some <$> (Production.expression false).parse) d :=
    .map hd (((h d hd (by omega)).expression false).weaken rfl) fun _ hv => hv
  refine .symbol hc fun _ c₁ hc hlt => ?_
  refine .isAt_of (.ite_bind hc (fun _ => .pure .nil) (fun _ => hoption hc hlt)
    fun test c₂ hc hle ht => ?_) (.inr rfl)
  refine .symbol hc fun _ c₃ hc hlt => ?_
  refine .isAt_of (.ite_bind hc (fun _ => .pure .nil) (fun _ => hoption hc (by omega))
    fun update c₄ hc hle hu => ?_) (.inr rfl)
  refine .symbol hc fun _ c₅ hc hlt => ?_
  refine .bind hc (h c₅ hc (by omega)).statement rfl fun body _ _ _ hb => ?_
  exact .rangeFrom (.pure (.node (((hi.append ht).append hu).append hb) trivial))

theorem forEachRest (hl : left.Quotable others) (hr : right.Quotable others) :
    Repeats .same 1 (Stmt.Quotable others)
      (Grammar.forEachRest Production.parse start kind left right) c := by
  refine .symbol hc fun _ c₁ hc hlt => ?_
  refine .bind hc (h c₁ hc (by omega)).statement rfl fun body _ _ _ hb => ?_
  exact .rangeFrom (.pure (.node (hl.append (hr.append hb)) trivial))

theorem forStatement (hk : c.current.kind = .keyword .for) :
    Repeats .same 1 (Stmt.Quotable others) (Grammar.forStatement Production.parse) c := by
  refine .bump hc (by rw [hk]; nofun) fun _ c₁ hc hlt => ?_
  refine .symbol hc fun _ c₂ hc hlt => ?_
  refine .andThen hc (forHead h hc (by omega)) rfl fun init c₃ hc hle hi => ?_
  cases init with
  | none => exact (forRest h hc (by omega) hi).relax
  | some left =>
    refine .eat_of hc nofun (fun c₄ hc hlt => ?_) (.peek_of (.ite (fun ho => ?_) fun _ => ?_)
      (.inr rfl)) (.inr rfl)
    · refine .bind hc ((h c₄ hc (by omega)).expression false) rfl fun right c₅ hc hlt hr => ?_
      exact (forEachRest h hc (by omega) hi hr).relax
    · refine .bump hc (by rintro hk; simp [Token.isOf, hk] at ho) fun _ c₄ hc hlt => ?_
      refine .bind hc ((h c₄ hc (by omega)).assignment false) rfl fun right c₅ hc hlt hr => ?_
      exact (forEachRest h hc (by omega) hi hr).relax
    · exact (forRest h hc (by omega) hi).relax

theorem returnStatement (hk : c.current.kind = .keyword .return) :
    Repeats .same 1 (Stmt.Quotable others) (Grammar.returnStatement Production.parse) c := by
  refine .bump hc (by rw [hk]; nofun) fun _ c₁ hc hlt => ?_
  refine .peek_of (.ite_bind (P := fun value => Quoted others (value.toList.map .expression)) hc
    (fun _ => .pure .nil) (fun _ => ?_) fun value c₂ hc hle hv => ?_) (.inr rfl)
  · exact .map hc (((h c₁ hc (by omega)).expression false).weaken rfl) fun _ hv => hv
  · exact .semicolon hc fun _ _ _ => .rangeFrom (.pure (.node hv trivial))

theorem throwStatement (hk : c.current.kind = .keyword .throw) :
    Repeats .same 1 (Stmt.Quotable others) (Grammar.throwStatement Production.parse) c := by
  refine .bump hc (by rw [hk]; nofun) fun _ c₁ hc hlt => ?_
  refine .peek_of (.ite (fun _ => .throw _) fun _ => ?_) (.inr rfl)
  refine .bind hc ((h c₁ hc (by omega)).expression false) rfl fun value c₂ hc _ hv => ?_
  exact .semicolon hc fun _ _ _ => .rangeFrom (.pure (.node hv trivial))

theorem handlerParameter :
    Repeats .same 0 (fun parameter => Quoted others (parameter.toList.map .expression))
      (Grammar.handlerParameter Production.parse) c := by
  refine .eat_of hc nofun (fun c₁ hc hlt => ?_) (.pure .nil) (.inr rfl)
  refine .bind hc (primary h hc (by omega)) rfl fun parameter c₂ hc _ hp => ?_
  exact .symbol hc fun _ _ _ _ => .pure hp

theorem handler :
    Repeats .same 0 (fun handler => Quoted others (handler.toList.map .handler))
      (Grammar.handler Production.parse) c := by
  refine .isAt_of (.ite (fun hk => ?_) fun _ => .pure .nil) (.inr rfl)
  refine .bump hc (by rw [beq_iff_eq.1 hk]; nofun) fun _ c₁ hc hlt => ?_
  refine .andThen hc (handlerParameter h hc (by omega)) rfl fun parameter c₂ hc hle hp => ?_
  refine .bind hc (block h hc (by omega)) rfl fun body _ _ _ hb => ?_
  exact .rangeFrom (.pure (.node (hp.append hb) trivial))

theorem finalizer :
    Repeats .same 0 (fun block => Quoted others (block.toList.map .block))
      (Grammar.finalizer Production.parse) c := by
  refine .eat_of hc nofun (fun c₁ hc hlt => ?_) (.pure .nil) (.inr rfl)
  exact .map hc ((block h hc (by omega)).weaken rfl) fun _ hb => hb

theorem tryStatement (hk : c.current.kind = .keyword .try) :
    Repeats .same 1 (Stmt.Quotable others) (Grammar.tryStatement Production.parse) c := by
  refine .bump hc (by rw [hk]; nofun) fun _ c₁ hc hlt => ?_
  refine .bind hc (block h hc (by omega)) rfl fun body c₂ hc hlt hb => ?_
  refine .andThen hc (handler h hc (by omega)) rfl fun handler c₃ hc hle hh => ?_
  refine .andThen hc (finalizer h hc (by omega)) rfl fun finalizer _ _ _ hf => ?_
  refine .ite (fun _ => .unexpected _) fun _ => .rangeFrom (.pure (.node ?_ trivial))
  exact hb.append (hh.append hf)

theorem clauseTest :
    Repeats .same 1 (fun test => Quoted others (test.toList.map .expression))
      (Grammar.clauseTest Production.parse) c := by
  refine .eat_of hc nofun (fun c₁ hc hlt => ?_) ?_ (.inl rfl)
  · exact .map hc (((h c₁ hc (by omega)).expression false).weaken rfl) fun _ hv => hv
  · exact .eat_of hc nofun (fun _ _ _ => .pure .nil) (.unexpected _) (.inl rfl)

theorem clauses :
    Repeats .any 1 (fun cases => Quoted others (cases.map .clause))
      (Grammar.clauses Production.parse) c := by
  refine .eat_of hc nofun (fun _ _ _ => .pure .nil) (.peek_of ?_ (.inl rfl)) (.inl rfl)
  refine .before hc (clauseTest h hc hn) fun test c₁ hc hlt ht => ?_
  refine .symbol hc fun _ c₂ hc hlt => ?_
  refine .before hc (h c₂ hc (by omega)).clauseBody fun body c₃ hc hle hb => .rangeFrom ?_
  refine .bind hc (h c₃ hc (by omega)).clauses rfl fun others _ _ _ hs => .pure ?_
  exact Piece.Everywhere.append (.node (ht.append hb) trivial) hs

theorem switchStatement (hk : c.current.kind = .keyword .switch) :
    Repeats .same 1 (Stmt.Quotable others) (Grammar.switchStatement Production.parse) c := by
  refine .bump hc (by rw [hk]; nofun) fun _ c₁ hc hlt => ?_
  refine .bind hc (parenthesized h hc (by omega)) rfl fun discriminant c₂ hc hlt hd => ?_
  refine .symbol hc fun _ c₃ hc hlt => ?_
  refine .bind hc (h c₃ hc (by omega)).clauses rfl fun clauses _ _ _ hs => ?_
  exact .rangeFrom (.pure (.node (hd.append hs) trivial))

theorem withStatement (hk : c.current.kind = .keyword .with) :
    Repeats .same 1 (Stmt.Quotable others) (Grammar.withStatement Production.parse) c := by
  refine .bump hc (by rw [hk]; nofun) fun _ c₁ hc hlt => ?_
  refine .bind hc (parenthesized h hc (by omega)) rfl fun object c₂ hc hlt ho => ?_
  refine .bind hc (h c₂ hc (by omega)).statement rfl fun body _ _ _ hb => ?_
  exact .rangeFrom (.pure (.node (ho.append hb) trivial))

theorem labeledStatement :
    Repeats .same 1 (Stmt.Quotable others) (Grammar.labeledStatement Production.parse) c := by
  refine .bind hc (.identifier hc) rfl fun label c₁ hc hlt _ => ?_
  refine .symbol hc fun _ c₂ hc hlt => ?_
  refine .bind hc (h c₂ hc (by omega)).statement rfl fun body _ _ _ hb => ?_
  exact .rangeFrom (.pure (.node ((Quoted.identifiers [label]).append hb) trivial))

theorem expressionStatement :
    Repeats .same 1 (Stmt.Quotable others) (Grammar.expressionStatement Production.parse) c := by
  refine .peek_of (.bind hc (expression h hc hn) rfl fun value c₁ hc hlt hv => ?_) (.inl rfl)
  exact .semicolon hc fun _ _ _ => .rangeFrom (.pure (.node hv trivial))

theorem statement :
    Repeats .same 1 (Stmt.Quotable others) (Grammar.statement Production.parse) c := by
  refine .peek_of ?_ (.inl rfl)
  split
  · exact blockStatement h hc hn
  · next hk => exact emptyStatement hc hk
  · next hk => exact declarationStatement h hc hn hk
  · next hk => exact declarationStatement h hc hn hk
  · next hk => exact declarationStatement h hc hn hk
  · next hk => exact functionStatement h hc hn hk
  · next hk => exact ifStatement h hc hn hk
  · next hk => exact whileStatement h hc hn hk
  · next hk => exact doStatement h hc hn hk
  · next hk => exact forStatement h hc hn hk
  · next hk => exact jumpStatement hc hk
  · next hk => exact jumpStatement hc hk
  · next hk => exact returnStatement h hc hn hk
  · next hk => exact throwStatement h hc hn hk
  · next hk => exact tryStatement h hc hn hk
  · next hk => exact switchStatement h hc hn hk
  · next hk => exact withStatement h hc hn hk
  · next hk => exact debuggerStatement hc hk
  · exact .nextKind (labeledStatement h hc hn) (expressionStatement h hc hn)
  · exact expressionStatement h hc hn

theorem statements :
    Repeats .any 1 (fun stmts => Quoted others (stmts.map .statement))
      (Grammar.statements Production.parse) c := by
  refine .eat_of hc nofun (fun _ _ _ => .pure .nil) ?_ (.inl rfl)
  refine .isAt_of (.ite (fun _ => .unexpected _) fun _ => ?_) (.inl rfl)
  refine .before hc (statement h hc hn) fun stmt c₁ hc hlt hs => ?_
  exact .bind hc (h c₁ hc (by omega)).statements rfl fun _ _ _ _ hss => .pure (hs.append hss)

theorem clauseBody :
    Repeats .same 0 (fun stmts => Quoted others (stmts.map .statement))
      (Grammar.clauseBody Production.parse) c := by
  refine .peek_of (.ite (fun _ => .pure .nil) fun _ => ?_) (.inr rfl)
  refine .bind hc (statement h hc hn) rfl fun stmt c₁ hc hlt hs => ?_
  exact .andThen hc (h c₁ hc (by omega)).clauseBody rfl fun _ _ _ _ hss => .pure (hs.append hss)

theorem program :
    Repeats .same 0 (fun stmts => Quoted others (stmts.map .statement))
      (Grammar.program Production.parse) c := by
  refine .isAt_of (.ite (fun _ => .pure .nil) fun _ => ?_) (.inr rfl)
  refine .bind hc (statement h hc hn) rfl fun stmt c₁ hc hlt hs => ?_
  exact .andThen hc (h c₁ hc (by omega)).program rfl fun _ _ _ _ hss => .pure (hs.append hss)

theorem parameters :
    Repeats .any 1 (fun _ => True) (Grammar.parameters Production.parse) c := by
  refine .eat_of hc nofun (fun _ _ _ => .pure trivial) ?_ (.inl rfl)
  have hmore (name : Identifier) (d : Cursor) (hd : d.Rests others)
      (hlt : d.ahead.length < c.ahead.length) : Repeats .any 1 (fun _ => True)
        (Production.parameters.parse >>= fun others => pure (name :: others)) d :=
    .bind hd (h d hd (by omega)).parameters rfl fun _ _ _ _ _ => .pure trivial
  refine .before hc (.identifier hc) fun name c₁ hc hlt _ => ?_
  refine .isAt_of (.ite (fun _ => ?_) fun _ => hmore name c₁ hc hlt) (.inl rfl)
  exact .symbol hc fun _ d hd hlt' => (hmore name d hd (by omega)).relax

end Parts

end Production.RepeatsBelow

/-- From what remains of some tokens, a production reads what is read again from the same tokens, and
all expressions in it can be read on their own. -/
theorem Production.repeatsAt {c : Cursor} (hc : c.Rests others) : RepeatsAt others c := by
  induction hn : c.ahead.length using Nat.strongRecOn generalizing c with
  | _ n ih =>
    have h : RepeatsBelow others n := fun d hd hlt => ih _ hlt hd rfl
    have hle : c.ahead.length ≤ n := Nat.le_of_eq hn
    have hread {α : Type} {p : Production α} {k : Fin 2} (ha : ∀ c', p.Admits c') (c' : Cursor)
        (hc' : c'.Closed) (_ : 0 < k → c'.current = c.current) :
        p.parse c' = Grammar.read Production.parse p c' := parse_eq_read hc' (ha c')
    exact {
      program := (h.program hc hle).congr hc.closed (hread fun _ => trivial)
      statement := (h.statement hc hle).congr hc.closed (hread fun _ => trivial)
      statements := (h.statements hc hle).congr hc.closed (hread fun _ => trivial)
      clauses := (h.clauses hc hle).congr hc.closed (hread fun _ => trivial)
      clauseBody := (h.clauseBody hc hle).congr hc.closed (hread fun _ => trivial)
      declarators := fun noIn => (h.declarators hc hle).congr hc.closed (hread fun _ => trivial)
      parameters := (h.parameters hc hle).congr hc.closed (hread fun _ => trivial)
      expression := fun noIn => (h.expression hc hle).congr hc.closed (hread fun _ => trivial)
      commaParts := fun noIn =>
        (h.commaParts hc hle fun _ => rfl).congr hc.closed (hread fun _ => trivial)
      assignment := fun noIn => (h.assignment hc hle).congr hc.closed (hread fun _ => trivial)
      binary := fun least noIn => (h.binary hc hle).congr hc.closed (hread fun _ => trivial)
      binaryRest := fun least noIn left _ _ hl =>
        (h.binaryRest hc hle hl).congr hc.closed (hread fun _ => trivial)
      unary := (h.unary hc hle).congr hc.closed (hread fun _ => trivial)
      suffixes := fun target _ _ ht =>
        (h.suffixes hc hle ht).congr hc.closed (hread fun _ => trivial)
      members := fun target _ _ ht => (h.members hc hle ht).congr hc.closed (hread fun _ => trivial)
      construction := fun hk => (h.construction hc hle hk).congr hc.closed fun c' hc' hcurrent =>
        parse_eq_read (p := .construction) hc' (show c'.current.kind = _ by
          rw [hcurrent (by decide), hk])
      elements := fun close => (h.elements hc hle).congr hc.closed (hread fun _ => trivial) }

end FlowLint
