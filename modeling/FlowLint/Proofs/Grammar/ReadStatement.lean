import FlowLint.Grammar.Script
import FlowLint.Proofs.Grammar.ReadExpression

namespace FlowLint
set_option autoImplicit true

theorem DeclarationKind.kind_eq_of_declarationKind? {kind : TokenKind}
    (h : kind.declarationKind? = some declared) : kind = .keyword declared.keyword := by
  unfold TokenKind.declarationKind? at h
  split at h <;> cases h <;> rfl

namespace Grammar.Sound

variable {g : Grammar} {c : Cursor}

theorem block (hg : g.Sound) (hc : c.Closed) :
    (Grammar.block g).Yields c fun block d => Stands (.block block) c d := by
  refine .symbol hc fun c₁ hc hl => ?_
  refine .bind (hg .statements c₁ hc trivial) fun body d hd ⟨c₂, h, hr⟩ => ?_
  exact .rangeFrom (.pure hd (.block hl h hr))

theorem blockStatement (hg : g.Sound) (hc : c.Closed) :
    (Grammar.blockStatement g).Yields c fun stmt d => Stands (.stmt stmt) c d :=
  .bind (block hg hc) fun ⟨_, _⟩ _ hd h => .pure hd (.blockStmt h)

theorem emptyStatement (hc : c.Closed) (hk : c.current.kind = .symbol .semicolon) :
    Grammar.emptyStatement.Yields c fun stmt d => Stands (.stmt stmt) c d :=
  .bump hc (by rw [hk]; nofun) fun d hd hp => .rangeFrom (.pure hd (.empty ⟨_, hp, hk⟩))

theorem declarators (hg : g.Sound) (hc : c.Closed) :
    (Grammar.declarators g noIn).Yields c fun names d => Stands (.declarators names) c d := by
  refine .bind (.identifier hc) fun name c₁ hc hn => ?_
  refine .eat_ite_bind (P := fun init d => Stands (.initializer init) c₁ d) hc nofun
    (fun c₂ hc ha => ?_) (fun _ => .pure hc .noInitializer) fun init c₂ hc hi => ?_
  · exact .map (hg (.assignment noIn) c₂ hc trivial) fun value d h => .initializer ha h
  refine .rangeFrom ?_
  refine .eat hc nofun (fun c₃ hc hcomma => ?_) fun _ => .pure hc (.lastDeclarator hn hi)
  refine .bind (hg (.declarators noIn) c₃ hc trivial) fun others d hd h => ?_
  exact .pure hd (.declarators hn hi hcomma h)

theorem declarationStatement (hg : g.Sound) (hc : c.Closed)
    (hk : c.current.kind = .keyword kind.keyword) :
    (Grammar.declarationStatement g kind).Yields c fun stmt d => Stands (.stmt stmt) c d := by
  refine .bump hc (by rw [hk]; nofun) fun c₁ hc hp => ?_
  refine .bind (hg (.declarators false) c₁ hc trivial) fun names c₂ hc hd => ?_
  exact .semicolon hc fun d hd' he => .rangeFrom (.pure hd' (.declaration ⟨_, hp, hk⟩ hd he))

theorem functionStatement (hg : g.Sound) (hc : c.Closed)
    (hk : c.current.kind = .keyword .function) :
    (Grammar.functionStatement g).Yields c fun stmt d => Stands (.stmt stmt) c d := by
  refine .bump hc (by rw [hk]; nofun) fun c₁ hc hf => ?_
  refine .bind (.identifier hc) fun name c₂ hc hn => ?_
  refine .bind (parameterList hg hc) fun parameters c₃ hc ⟨m, hl, hp⟩ => ?_
  refine .bind (functionBody hg hc) fun body d hd ⟨c₄, c₅, ho, hb, hr⟩ => ?_
  exact .rangeFrom (.pure hd (.function ⟨_, hf, hk⟩ hn hl hp ho hb hr))

theorem ifStatement (hg : g.Sound) (hc : c.Closed) (hk : c.current.kind = .keyword .if) :
    (Grammar.ifStatement g).Yields c fun stmt d => Stands (.stmt stmt) c d := by
  refine .bump hc (by rw [hk]; nofun) fun c₁ hc hp => ?_
  refine .bind (parenthesized hg hc) fun test c₂ hc ht => ?_
  refine .bind (hg .statement c₂ hc trivial) fun body c₃ hc hb => ?_
  refine .eat_ite_bind (P := fun orElse d => Stands (.orElse orElse) c₃ d) hc nofun
    (fun c₄ hc he => ?_) (fun hn => .pure hc (.noElse hn)) fun orElse d hd he => ?_
  · exact .map (hg .statement c₄ hc trivial) fun stmt d h => .orElse he h
  · exact .rangeFrom (.pure hd (.ifStmt ⟨_, hp, hk⟩ ht hb he))

theorem whileStatement (hg : g.Sound) (hc : c.Closed) (hk : c.current.kind = .keyword .while) :
    (Grammar.whileStatement g).Yields c fun stmt d => Stands (.stmt stmt) c d := by
  refine .bump hc (by rw [hk]; nofun) fun c₁ hc hp => ?_
  refine .bind (parenthesized hg hc) fun test c₂ hc ht => ?_
  refine .bind (hg .statement c₂ hc trivial) fun body d hd hb => ?_
  exact .rangeFrom (.pure hd (.whileStmt ⟨_, hp, hk⟩ ht hb))

theorem doStatement (hg : g.Sound) (hc : c.Closed) (hk : c.current.kind = .keyword .do) :
    (Grammar.doStatement g).Yields c fun stmt d => Stands (.stmt stmt) c d := by
  refine .bump hc (by rw [hk]; nofun) fun c₁ hc hp => ?_
  refine .bind (hg .statement c₁ hc trivial) fun body c₂ hc hb => ?_
  refine .keyword hc fun c₃ hc hw => ?_
  refine .bind (parenthesized hg hc) fun test c₄ hc ht => ?_
  refine .eat_bind hc nofun (fun d hd hs => .rangeFrom (.pure hd ?_))
    fun hn => .rangeFrom (.pure hc ?_)
  · exact .doStmt ⟨_, hp, hk⟩ hb hw ht (.semicolon hs)
  · exact .doStmt ⟨_, hp, hk⟩ hb hw ht (.absent hn)

theorem forHead (hg : g.Sound) (hc : c.Closed) :
    (Grammar.forHead g).Yields c fun init d => Stands (.init init) c d := by
  refine .peek (.ite (fun _ => .pure hc .noInit) fun _ => ?_)
  split
  · next kind hd =>
    have hk := DeclarationKind.kind_eq_of_declarationKind? hd
    refine .bump hc (by rw [hk]; nofun) fun c₁ hc hp => ?_
    refine .bind (hg (.declarators true) c₁ hc trivial) fun names d hd h => ?_
    exact .rangeFrom (.pure hd (.init (.headDeclaration ⟨_, hp, hk⟩ h)))
  · refine .bind (hg (.expression true) c hc trivial) fun value d hd h => ?_
    exact .pure hd (.init (.headExpression h))

theorem forRest (hg : g.Sound) {c₁ c₂ c₃ : Cursor} {init : Option Stmt}
    (hk : c.PassesKeyword .for c₁) (hl : c₁.PassesSymbol .leftParen c₂)
    (hi : Stands (.init init) c₂ c₃) (hc : c₃.Closed) :
    (Grammar.forRest g c.current.range.start init).Yields c₃ fun stmt d =>
      Stands (.stmt stmt) c d := by
  have hoption {m : Cursor} (hm : m.Closed) :
      (some <$> g (.expression false)).Yields m fun value d => Stands (.option value) m d :=
    .map (hg (.expression false) m hm trivial) fun value d h => .option h
  refine .symbol hc fun c₄ hc hs => ?_
  refine .isAt (.ite_bind (P := fun test d => Stands (.option test) c₄ d)
    (fun _ => .pure hc .noOption) (fun _ => hoption hc) fun test c₅ hc ht => ?_)
  refine .symbol hc fun c₆ hc hs' => ?_
  refine .isAt (.ite_bind (P := fun update d => Stands (.option update) c₆ d)
    (fun _ => .pure hc .noOption) (fun _ => hoption hc) fun update c₇ hc hu => ?_)
  refine .symbol hc fun c₈ hc hr => ?_
  refine .bind (hg .statement c₈ hc trivial) fun body d hd hb => ?_
  exact .rangeFrom (.pure hd (.forStmt hk hl hi hs ht hs' hu hr hb))

theorem forEachRest (hg : g.Sound) {c₁ c₂ c₃ c₄ c₅ : Cursor}
    (hk : c.PassesKeyword .for c₁) (hl : c₁.PassesSymbol .leftParen c₂)
    (hh : Stands (.head left) c₂ c₃) (he : c₃.PassesEach kind c₄) (h : Stands (.expr right) c₄ c₅)
    (hc : c₅.Closed) :
    (Grammar.forEachRest g c.current.range.start kind left right).Yields c₅ fun stmt d =>
      Stands (.stmt stmt) c d := by
  refine .symbol hc fun c₆ hc hr => ?_
  refine .bind (hg .statement c₆ hc trivial) fun body d hd hb => ?_
  exact .rangeFrom (.pure hd (.forEach hk hl hh he h hr hb))

theorem forStatement (hg : g.Sound) (hc : c.Closed) (hk : c.current.kind = .keyword .for) :
    (Grammar.forStatement g).Yields c fun stmt d => Stands (.stmt stmt) c d := by
  refine .bump hc (by rw [hk]; nofun) fun c₁ hc hp => ?_
  refine .symbol hc fun c₂ hc hl => ?_
  refine .bind (forHead hg hc) fun init c₃ hc hi => ?_
  cases init with
  | none => exact forRest hg ⟨_, hp, hk⟩ hl hi hc
  | some left =>
    have hh : Stands (.head left) c₂ c₃ := by
      cases hi with
      | init hh => exact hh
    refine .eat hc nofun (fun c₄ hc hin => ?_) fun _ => .peek (.ite (fun ho => ?_) fun _ => ?_)
    · refine .bind (hg (.expression false) c₄ hc trivial) fun right c₅ hc h => ?_
      exact forEachRest hg ⟨_, hp, hk⟩ hl hh (.keys hin) h hc
    · have hne : c₃.current.kind ≠ .endOfFile := by
        intro he
        simp [Token.isOf, he] at ho
      refine .bump hc hne fun c₄ hc hof => ?_
      refine .bind (hg (.assignment false) c₄ hc trivial) fun right c₅ hc h => ?_
      exact forEachRest hg ⟨_, hp, hk⟩ hl hh (.items hof ho) h hc
    · exact forRest hg ⟨_, hp, hk⟩ hl hi hc

theorem jumpLabel (hc : c.Closed) :
    Grammar.jumpLabel.Yields c fun label d => c.PassesLabel label d := by
  refine .peek (.ite (fun h => ?_) fun hn => .pure hc (.absent hn))
  exact .map (.identifier hc) fun name d hd => .present hd h.2

theorem jumpStatement (hc : c.Closed) (hk : c.current.kind = .keyword kind.keyword) :
    (Grammar.jumpStatement kind).Yields c fun stmt d => Stands (.stmt stmt) c d := by
  refine .bump hc (by rw [hk]; nofun) fun c₁ hc hp => ?_
  refine .bind (jumpLabel hc) fun label c₂ hc hl => ?_
  exact .semicolon hc fun d hd he => .rangeFrom (.pure hd (.jump ⟨_, hp, hk⟩ hl he))

theorem returnStatement (hg : g.Sound) (hc : c.Closed) (hk : c.current.kind = .keyword .return) :
    (Grammar.returnStatement g).Yields c fun stmt d => Stands (.stmt stmt) c d := by
  refine .bump hc (by rw [hk]; nofun) fun c₁ hc hp => .peek (.ite (fun _ => ?_) fun hn => ?_)
  · refine .pure_bind (.semicolon hc fun d hd he => .rangeFrom (.pure hd ?_))
    exact .bareReturn ⟨_, hp, hk⟩ he
  · refine .bind (P := fun value d => ∃ expr, value = some expr ∧ Stands (.expr expr) c₁ d)
      (.map (hg (.expression false) c₁ hc trivial) fun expr d h => ⟨expr, rfl, h⟩) ?_
    rintro _ c₂ hc ⟨value, rfl, h⟩
    refine .semicolon hc fun d hd he => .rangeFrom (.pure hd ?_)
    exact .returnStmt ⟨_, hp, hk⟩ (Bool.eq_false_iff.2 hn) h he

theorem throwStatement (hg : g.Sound) (hc : c.Closed) (hk : c.current.kind = .keyword .throw) :
    (Grammar.throwStatement g).Yields c fun stmt d => Stands (.stmt stmt) c d := by
  refine .bump hc (by rw [hk]; nofun) fun c₁ hc hp => .peek (.ite (fun _ => .throw) fun hn => ?_)
  refine .bind (hg (.expression false) c₁ hc trivial) fun value c₂ hc h => ?_
  refine .semicolon hc fun d hd he => .rangeFrom (.pure hd ?_)
  exact .throwStmt ⟨_, hp, hk⟩ (Bool.eq_false_iff.2 hn) h he

theorem handlerParameter (hg : g.Sound) (hc : c.Closed) :
    (Grammar.handlerParameter g).Yields c fun parameter d => Stands (.parameter parameter) c d := by
  refine .eat hc nofun (fun c₁ hc hl => ?_) fun _ => .pure hc .noParameter
  refine .bind (primary hg hc) fun parameter c₂ hc h => ?_
  exact .symbol hc fun d hd hr => .pure hd (.parameter (.parenthesized hl h hr))

theorem handler (hg : g.Sound) (hc : c.Closed) :
    (Grammar.handler g).Yields c fun handler d => Stands (.handler handler) c d := by
  refine .isAt (.ite (fun h => ?_) fun _ => .pure hc .noHandler)
  have hk := beq_iff_eq.1 h
  refine .bump hc (by rw [hk]; nofun) fun c₁ hc hp => ?_
  refine .bind (handlerParameter hg hc) fun parameter c₂ hc ht => ?_
  refine .bind (block hg hc) fun body d hd hb => ?_
  exact .rangeFrom (.pure hd (.handler ⟨_, hp, hk⟩ ht hb))

theorem finalizer (hg : g.Sound) (hc : c.Closed) :
    (Grammar.finalizer g).Yields c fun finalizer d => Stands (.finalizer finalizer) c d := by
  refine .eat hc nofun (fun c₁ hc hf => ?_) fun _ => .pure hc .noFinalizer
  exact .map (block hg hc) fun block d h => .finalizer hf h

theorem tryStatement (hg : g.Sound) (hc : c.Closed) (hk : c.current.kind = .keyword .try) :
    (Grammar.tryStatement g).Yields c fun stmt d => Stands (.stmt stmt) c d := by
  refine .bump hc (by rw [hk]; nofun) fun c₁ hc hp => ?_
  refine .bind (block hg hc) fun body c₂ hc hb => ?_
  refine .bind (handler hg hc) fun handler c₃ hc hh => ?_
  refine .bind (finalizer hg hc) fun finalizer d hd hf => ?_
  refine .ite (fun _ => .unexpected) fun hs => .rangeFrom (.pure hd ?_)
  exact .tryStmt ⟨_, hp, hk⟩ hb hh hf (Bool.eq_false_iff.2 hs)

theorem clauseTest (hg : g.Sound) (hc : c.Closed) :
    (Grammar.clauseTest g).Yields c fun test d => Stands (.test test) c d := by
  refine .eat hc nofun (fun c₁ hc hk => ?_) fun _ => ?_
  · exact .map (hg (.expression false) c₁ hc trivial) fun expr d h => .test hk h
  · exact .eat hc nofun (fun d hd hk => .pure hd (.defaultTest hk)) fun _ => .unexpected

theorem clauses (hg : g.Sound) (hc : c.Closed) :
    (Grammar.clauses g).Yields c fun clauses d =>
      ∃ m, Stands (.clauses clauses) c m ∧ m.PassesSymbol .rightBrace d := by
  refine .eat hc nofun (fun d hd hr => .pure hd ⟨c, .noClauses, hr⟩) fun _ => .peek ?_
  refine .bind (clauseTest hg hc) fun test c₁ hc ht => ?_
  refine .symbol hc fun c₂ hc hcolon => ?_
  refine .bind (hg .clauseBody c₂ hc trivial) fun body c₃ hc hb => .rangeFrom ?_
  refine .bind (hg .clauses c₃ hc trivial) fun others d hd ⟨m, hs, hr⟩ => ?_
  exact .pure hd ⟨m, .clauses ht hcolon hb hs, hr⟩

theorem switchStatement (hg : g.Sound) (hc : c.Closed) (hk : c.current.kind = .keyword .switch) :
    (Grammar.switchStatement g).Yields c fun stmt d => Stands (.stmt stmt) c d := by
  refine .bump hc (by rw [hk]; nofun) fun c₁ hc hp => ?_
  refine .bind (parenthesized hg hc) fun discriminant c₂ hc hd => ?_
  refine .symbol hc fun c₃ hc hl => ?_
  refine .bind (hg .clauses c₃ hc trivial) fun clauses d hd' ⟨m, h, hr⟩ => ?_
  exact .rangeFrom (.pure hd' (.switchStmt ⟨_, hp, hk⟩ hd hl h hr))

theorem withStatement (hg : g.Sound) (hc : c.Closed) (hk : c.current.kind = .keyword .with) :
    (Grammar.withStatement g).Yields c fun stmt d => Stands (.stmt stmt) c d := by
  refine .bump hc (by rw [hk]; nofun) fun c₁ hc hp => ?_
  refine .bind (parenthesized hg hc) fun object c₂ hc ho => ?_
  refine .bind (hg .statement c₂ hc trivial) fun body d hd hb => ?_
  exact .rangeFrom (.pure hd (.withStmt ⟨_, hp, hk⟩ ho hb))

theorem debuggerStatement (hc : c.Closed) (hk : c.current.kind = .keyword .debugger) :
    Grammar.debuggerStatement.Yields c fun stmt d => Stands (.stmt stmt) c d := by
  refine .bump hc (by rw [hk]; nofun) fun c₁ hc hp => ?_
  exact .semicolon hc fun d hd he => .rangeFrom (.pure hd (.debugger ⟨_, hp, hk⟩ he))

theorem labeledStatement (hg : g.Sound) (hc : c.Closed) :
    (Grammar.labeledStatement g).Yields c fun stmt d => Stands (.stmt stmt) c d := by
  refine .bind (.identifier hc) fun label c₁ hc hl => ?_
  refine .symbol hc fun c₂ hc hcolon => ?_
  refine .bind (hg .statement c₂ hc trivial) fun body d hd hb => ?_
  exact .rangeFrom (.pure hd (.labeled hl hcolon hb))

theorem expressionStatement (hg : g.Sound) (hc : c.Closed) :
    (Grammar.expressionStatement g).Yields c fun stmt d => Stands (.stmt stmt) c d := by
  refine .peek (.bind (expression hg hc) fun value c₁ hc h => ?_)
  exact .semicolon hc fun d hd he => .rangeFrom (.pure hd (.expression h he))

theorem statement (hg : g.Sound) (hc : c.Closed) :
    (Grammar.statement g).Yields c fun stmt d => Stands (.stmt stmt) c d := by
  refine .peek ?_
  split
  · exact blockStatement hg hc
  · next hk => exact emptyStatement hc hk
  · next hk => exact declarationStatement hg hc hk
  · next hk => exact declarationStatement hg hc hk
  · next hk => exact declarationStatement hg hc hk
  · next hk => exact functionStatement hg hc hk
  · next hk => exact ifStatement hg hc hk
  · next hk => exact whileStatement hg hc hk
  · next hk => exact doStatement hg hc hk
  · next hk => exact forStatement hg hc hk
  · next hk => exact jumpStatement hc hk
  · next hk => exact jumpStatement hc hk
  · next hk => exact returnStatement hg hc hk
  · next hk => exact throwStatement hg hc hk
  · next hk => exact tryStatement hg hc hk
  · next hk => exact switchStatement hg hc hk
  · next hk => exact withStatement hg hc hk
  · next hk => exact debuggerStatement hc hk
  · exact .get (.ite (fun _ => labeledStatement hg hc) fun _ => expressionStatement hg hc)
  · exact expressionStatement hg hc

theorem statements (hg : g.Sound) (hc : c.Closed) :
    (Grammar.statements g).Yields c fun stmts d =>
      ∃ m, Stands (.stmts stmts) c m ∧ m.PassesSymbol .rightBrace d := by
  refine .eat hc nofun (fun d hd hr => .pure hd ⟨c, .noStmts, hr⟩) fun _ => ?_
  refine .isAt (.ite (fun _ => .unexpected) fun _ => ?_)
  refine .bind (statement hg hc) fun stmt c₁ hc h => ?_
  refine .bind (hg .statements c₁ hc trivial) fun stmts d hd ⟨m, hs, hr⟩ => ?_
  exact .pure hd ⟨m, .stmts h hs, hr⟩

theorem clauseBody (hg : g.Sound) (hc : c.Closed) :
    (Grammar.clauseBody g).Yields c fun stmts d => Stands (.stmts stmts) c d := by
  refine .peek (.ite (fun _ => .pure hc .noStmts) fun _ => ?_)
  refine .bind (statement hg hc) fun stmt c₁ hc h => ?_
  refine .bind (hg .clauseBody c₁ hc trivial) fun stmts d hd hs => ?_
  exact .pure hd (.stmts h hs)

theorem program (hg : g.Sound) (hc : c.Closed) :
    (Grammar.program g).Yields c fun stmts d =>
      Stands (.stmts stmts) c d ∧ d.current.kind = .endOfFile := by
  refine .isAt (.ite (fun h => .pure hc ⟨.noStmts, beq_iff_eq.1 h⟩) fun _ => ?_)
  refine .bind (statement hg hc) fun stmt c₁ hc h => ?_
  refine .bind (hg .program c₁ hc trivial) fun stmts d hd ⟨hs, he⟩ => ?_
  exact .pure hd ⟨.stmts h hs, he⟩

theorem parameters (hg : g.Sound) (hc : c.Closed) :
    (Grammar.parameters g).Yields c fun names d => c.PassesParameters names d := by
  refine .eat hc nofun (fun d hd hr => .pure hd (.nil hr)) fun _ => ?_
  refine .bind (.identifier hc) fun name c₁ hc hn => ?_
  refine .isAt (.ite (fun _ => ?_) fun hr => ?_)
  · refine .symbol hc fun c₂ hc hcomma => ?_
    refine .bind (hg .parameters c₂ hc trivial) fun others d hd h => ?_
    exact .pure hd (.cons hn hcomma h)
  · have hr : c₁.current.kind = .symbol .rightParen := by simpa using hr
    refine .bind (hg .parameters c₁ hc trivial) fun others d hd h => .pure hd ?_
    cases h with
    | nil hp => exact .last hn hp
    | last hn' => rw [hn'.current] at hr; cases hr
    | cons hn' => rw [hn'.current] at hr; cases hr

end Grammar.Sound

/-- What a sound grammar reads as its parts, it reads as a whole. -/
theorem Grammar.Sound.read {g : Grammar} (hg : g.Sound) : Grammar.Sound (Grammar.read g) := by
  intro α p c hc ha
  cases p with
  | program => exact hg.program hc
  | statement => exact hg.statement hc
  | statements => exact hg.statements hc
  | clauses => exact hg.clauses hc
  | clauseBody => exact hg.clauseBody hc
  | declarators noIn => exact hg.declarators hc
  | parameters => exact hg.parameters hc
  | expression noIn => exact hg.expression hc
  | commaParts noIn => exact hg.commaParts hc
  | assignment noIn => exact hg.assignment hc
  | binary least noIn => exact hg.binary hc
  | binaryRest least noIn left => exact hg.binaryRest hc
  | unary => exact hg.unary hc
  | suffixes target => exact hg.suffixes hc
  | members target => exact hg.members hc
  | construction => exact hg.construction hc ha
  | elements close => exact hg.elements hc

theorem Grammar.sound_upTo (bound : Nat) : Grammar.Sound (Grammar.upTo bound) := by
  induction bound with
  | zero => exact fun p c hc ha => .unexpected
  | succ bound ih => exact ih.read

theorem Script.stands_of_ofTokens {tokens : List Token} {script : Script}
    (hc : (Cursor.ofTokens tokens).Closed) (h : Script.ofTokens tokens = .ok script) :
    ∃ d : Cursor, Stands (.stmts script.body) (Cursor.ofTokens tokens) d ∧ d.ahead = [] := by
  obtain ⟨⟨body, d⟩, hp, he⟩ := bind_eq_ok.1 h
  cases he
  obtain ⟨hd, hs, hk⟩ := Grammar.sound_upTo _ .program _ hc trivial body d hp
  refine ⟨d, hs, ?_⟩
  obtain ⟨ahead, endOfFile, stop⟩ := d
  cases ahead with
  | nil => rfl
  | cons token ahead => exact absurd hk (hd.ahead token (List.mem_cons_self ..))

end FlowLint
