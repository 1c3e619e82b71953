import FlowLint.Grammar.Script
import FlowLint.Proofs.Grammar.SeparateExpression
import FlowLint.Proofs.Grammar.StayStatement

namespace FlowLint
set_option autoImplicit true

open Piece (Separated)

namespace Cursor

variable {others : List Token} {last : Token} {c d : Cursor}

theorem Remains.passes (h : c.Remains others last) (hp : c.Passes token d) :
    d.Remains others last :=
  hp.advance ▸ h.advance

theorem Passes.between {list : List Token} {left right : List Piece} {b e : Cursor}
    (h : c.Passes token d) (hb : b.Along list) (hl : Lays list b left c)
    (hr : Lays list d right e) : token.Between left right := by
  have hc : c.Along list ∧ ∀ piece ∈ left, piece.range.stop ≤ c.stop := by
    cases hl with
    | stay => exact ⟨hb, nofun⟩
    | cross hl =>
      obtain ⟨hc, -, hrow, -⟩ := hl hb
      exact ⟨hc, fun piece hm => (hrow.inside piece hm).2⟩
  have hd : d.Along list := (h.crosses hc.1).along
  have hstart := hc.1.stop_le
  rw [h.current] at hstart
  constructor
  · exact fun piece hm => Nat.le_trans (hc.2 piece hm) hstart
  · cases hr with
    | stay => exact nofun
    | cross hr =>
      have hstop := hd.stop_le
      rw [h.stop] at hstop
      exact fun piece hm => Nat.le_trans hstop ((hr hd).row.inside piece hm).1

/-- The tokens from `for (` on, and the separator behind the first part of the head. -/
theorem PassesKeyword.heads {c₁ c₂ c₃ c₄ : Cursor} {head : List Token} {separator : Token}
    (hk : c.PassesKeyword .for c₁) (hl : c₁.PassesSymbol .leftParen c₂)
    (hc : c.ahead <:+ others) (hf : Stands first c₂ c₃) (hh : c₂.ahead = head ++ c₃.ahead)
    (hs : c₃.Passes separator c₄) : Heads others c.current.range.start first head separator := by
  obtain ⟨before, hothers⟩ := hc
  obtain ⟨word, hp, hword⟩ := hk
  obtain ⟨paren, hp', hparen⟩ := hl
  rw [hs.ahead] at hh
  have hstart : word.range.start = c.current.range.start := by rw [hp.current]
  refine ⟨before, word, paren, c₄.ahead, ?_, hword, hstart, hparen, c₂, c₃, hf, hh, hs.ahead⟩
  rw [← hothers, hp.ahead, hp'.ahead, hh]

end Cursor

namespace Grammar.Separating

open TokenReader (Builds Yields)

variable {others : List Token} {last : Token} {g : Grammar} {c : Cursor}

theorem emptyStatement :
    Builds others last (fun stmt => [.statement stmt]) Grammar.emptyStatement :=
  .bump fun _ => .rangeFrom fun _ => .pure (.node .nil rfl)

theorem debuggerStatement :
    Builds others last (fun stmt => [.statement stmt]) Grammar.debuggerStatement :=
  .bump fun _ => .semicolon (.rangeFrom fun _ => .pure (.node .nil rfl))

theorem jumpLabel :
    Builds others last (fun label => label.toList.map .identifier) Grammar.jumpLabel :=
  .peek fun _ => .ite (.map .identifier fun _ h => h) (.pure .nil)

theorem jumpStatement (kind : JumpKind) :
    Builds others last (fun stmt => [.statement stmt]) (Grammar.jumpStatement kind) := by
  apply Builds.bump
  intro token
  apply Builds.bind jumpLabel
  intro label hlabel
  exact .semicolon (.rangeFrom fun _ => .pure (.node hlabel rfl))

/-- The head of a `for` ends in front of every word `in` outside of brackets. -/
theorem forHead_noFreeIn (hs : g.Sound) (hw : ∀ word, g.Stays word) (hc : c.Closed) :
    (Grammar.forHead g).Yields c fun init d =>
      Stands (.init init) c d ∧ ∃ head, c.ahead = head ++ d.ahead ∧ NoFreeIn head := by
  intro init d he
  obtain ⟨hd, hinit⟩ := Grammar.Sound.forHead hs hc init d he
  obtain ⟨head, hahead, hout⟩ := hinit.nests [] trivial
  refine ⟨hd, hinit, head, hahead, hout, ?_⟩
  intro read word rest hhead hk hread
  have hstays : (Grammar.forHead g).Stays ⟨word, hk⟩ [] read c.stop :=
    Grammar.Stays.forHead (hw ⟨word, hk⟩) hread
  obtain ⟨outcome, hparse, -⟩ := hstays
  have hsplit : c = ⟨read ++ word :: (rest ++ d.ahead), c.endOfFile, c.stop⟩ := by
    obtain ⟨ahead, endOfFile, stop⟩ := c
    obtain rfl : ahead = head ++ d.ahead := hahead
    simp [hhead]
  -- The word would be left ahead, although it was read.
  rw [hsplit, hparse] at he
  cases outcome with
  | error error => cases he
  | ok result =>
    obtain ⟨init', left, stop⟩ := result
    have hleft : left ++ word :: (rest ++ d.ahead) = d.ahead :=
      congrArg (fun result => result.2.ahead) (Except.ok.inj he)
    have hlength := congrArg List.length hleft
    simp only [List.length_append, List.length_cons] at hlength
    omega

section Parts

variable (hg : g.Separating others last)
include hg

theorem block : Builds others last (fun block => [.block block]) (Grammar.block g) := by
  apply Builds.symbol
  intro token
  apply Builds.bind (hg .statements .nil)
  intro body hbody
  exact .rangeFrom fun _ => .pure (.node hbody rfl)

theorem blockStatement :
    Builds others last (fun stmt => [.statement stmt]) (Grammar.blockStatement g) := by
  apply Builds.bind hg.block
  intro block hblock
  obtain ⟨range, body⟩ := block
  have hstmt : Separated others [.statement (.block range body)] := .node hblock.children rfl
  exact .pure hstmt

theorem declarators (noIn : Bool) :
    Builds others last (fun names => names.map .declarator) (Grammar.declarators g noIn) := by
  apply Builds.bind .identifier
  intro name hname
  apply Builds.eat
  intro eaten
  apply Builds.ite_bind (r := fun init => init.toList.map .expression)
  · exact .map (hg (.assignment noIn) .nil) fun _ h => h
  · exact .pure .nil
  intro init hinit
  apply Builds.rangeFrom
  intro range
  have hdeclarator : Separated others [.declarator ⟨range, name, init⟩] :=
    .node (hname.append hinit) rfl
  apply Builds.eat
  intro more
  apply Builds.ite
  · exact .bind (hg (.declarators noIn) .nil) fun names h => .pure (hdeclarator.append h)
  · exact .pure hdeclarator

theorem declarationStatement (kind : DeclarationKind) :
    Builds others last (fun stmt => [.statement stmt]) (Grammar.declarationStatement g kind) := by
  apply Builds.bump
  intro token
  apply Builds.bind (hg (.declarators false) .nil)
  intro names hnames
  exact .semicolon (.rangeFrom fun _ => .pure (.node hnames rfl))

theorem functionStatement :
    Builds others last (fun stmt => [.statement stmt]) (Grammar.functionStatement g) := by
  apply Builds.bump
  intro token
  apply Builds.bind .identifier
  intro name hname
  apply Builds.bind hg.parameterList
  intro parameters hparameters
  apply Builds.bind hg.functionBody
  intro body hbody
  exact .rangeFrom fun _ => .pure (.node (hname.append (hparameters.append hbody)) rfl)

theorem ifStatement :
    Builds others last (fun stmt => [.statement stmt]) (Grammar.ifStatement g) := by
  apply Builds.bump
  intro token
  apply Builds.bind hg.parenthesized
  intro test htest
  apply Builds.bind (hg .statement .nil)
  intro body hbody
  apply Builds.eat
  intro eaten
  apply Builds.ite_bind (r := fun orElse => orElse.toList.map .statement)
  · exact .map (hg .statement .nil) fun _ h => h
  · exact .pure .nil
  intro orElse helse
  exact .rangeFrom fun _ => .pure (.node (htest.append (hbody.append helse)) rfl)

theorem whileStatement :
    Builds others last (fun stmt => [.statement stmt]) (Grammar.whileStatement g) := by
  apply Builds.bump
  intro token
  apply Builds.bind hg.parenthesized
  intro test htest
  apply Builds.bind (hg .statement .nil)
  intro body hbody
  exact .rangeFrom fun _ => .pure (.node (htest.append hbody) rfl)

theorem doStatement :
    Builds others last (fun stmt => [.statement stmt]) (Grammar.doStatement g) := by
  apply Builds.bump
  intro token
  apply Builds.bind (hg .statement .nil)
  intro body hbody
  apply Builds.keyword
  intro _
  apply Builds.bind hg.parenthesized
  intro test htest
  exact .eat fun _ => .rangeFrom fun _ => .pure (.node (hbody.append htest) rfl)

theorem forHead :
    Builds others last (fun init => init.toList.map .statement) (Grammar.forHead g) := by
  apply Builds.peek
  intro token
  apply Builds.ite
  · exact .pure .nil
  · dsimp only
    split
    · apply Builds.bump
      intro _
      apply Builds.bind (hg (.declarators true) .nil)
      intro names hnames
      exact .rangeFrom fun _ => .pure (.node hnames rfl)
    · exact .bind (hg (.expression true) .nil) fun value h => .pure (.node h rfl)

theorem returnStatement :
    Builds others last (fun stmt => [.statement stmt]) (Grammar.returnStatement g) := by
  apply Builds.bump
  intro token
  apply Builds.peek
  intro next
  apply Builds.ite_bind (r := fun value => value.toList.map .expression)
  · exact .pure .nil
  · exact .map (hg (.expression false) .nil) fun _ h => h
  intro value hvalue
  exact .semicolon (.rangeFrom fun _ => .pure (.node hvalue rfl))

theorem throwStatement :
    Builds others last (fun stmt => [.statement stmt]) (Grammar.throwStatement g) := by
  apply Builds.bump
  intro token
  apply Builds.peek
  intro next
  apply Builds.ite
  · exact .throw _
  · apply Builds.bind (hg (.expression false) .nil)
    intro value hvalue
    exact .semicolon (.rangeFrom fun _ => .pure (.node hvalue rfl))

theorem handlerParameter :
    Builds others last (fun parameter => parameter.toList.map .expression)
      (Grammar.handlerParameter g) := by
  apply Builds.eat
  intro eaten
  apply Builds.ite
  · apply Builds.bind hg.primary
    intro parameter hparameter
    exact .symbol fun _ => .pure hparameter
  · exact .pure .nil

theorem handler :
    Builds others last (fun handler => handler.toList.map .handler) (Grammar.handler g) := by
  apply Builds.isAt
  intro found
  apply Builds.ite
  · apply Builds.bump
    intro token
    apply Builds.bind hg.handlerParameter
    intro parameter hparameter
    apply Builds.bind hg.block
    intro body hbody
    exact .rangeFrom fun _ => .pure (.node (hparameter.append hbody) rfl)
  · exact .pure .nil

theorem finalizer :
    Builds others last (fun block => block.toList.map .block) (Grammar.finalizer g) :=
  .eat fun _ => .ite (.map hg.block fun _ h => h) (.pure .nil)

theorem tryStatement :
    Builds others last (fun stmt => [.statement stmt]) (Grammar.tryStatement g) := by
  apply Builds.bump
  intro token
  apply Builds.bind hg.block
  intro body hbody
  apply Builds.bind hg.handler
  intro handler hhandler
  apply Builds.bind hg.finalizer
  intro finalizer hfinalizer
  apply Builds.ite
  · exact .unexpected _
  · exact .rangeFrom fun _ => .pure (.node (hbody.append (hhandler.append hfinalizer)) rfl)

theorem clauseTest :
    Builds others last (fun test => test.toList.map .expression) (Grammar.clauseTest g) := by
  apply Builds.eat
  intro eaten
  apply Builds.ite
  · exact .map (hg (.expression false) .nil) fun _ h => h
  · exact .eat fun _ => .ite (.pure .nil) (.unexpected _)

theorem clauses :
    Builds others last (fun cases => cases.map .clause) (Grammar.clauses g) := by
  apply Builds.eat
  intro eaten
  apply Builds.ite
  · exact .pure .nil
  · apply Builds.peek
    intro token
    apply Builds.bind hg.clauseTest
    intro test htest
    apply Builds.symbol
    intro _
    apply Builds.bind (hg .clauseBody .nil)
    intro body hbody
    apply Builds.rangeFrom
    intro range
    have hclause : Separated others [.clause ⟨range, test, body⟩] := .node (htest.append hbody) rfl
    exact .bind (hg .clauses .nil) fun rest h => .pure (hclause.append h)

theorem switchStatement :
    Builds others last (fun stmt => [.statement stmt]) (Grammar.switchStatement g) := by
  apply Builds.bump
  intro token
  apply Builds.bind hg.parenthesized
  intro discriminant hdiscriminant
  apply Builds.symbol
  intro _
  apply Builds.bind (hg .clauses .nil)
  intro cases hcases
  exact .rangeFrom fun _ => .pure (.node (hdiscriminant.append hcases) rfl)

theorem withStatement :
    Builds others last (fun stmt => [.statement stmt]) (Grammar.withStatement g) := by
  apply Builds.bump
  intro token
  apply Builds.bind hg.parenthesized
  intro object hobject
  apply Builds.bind (hg .statement .nil)
  intro body hbody
  exact .rangeFrom fun _ => .pure (.node (hobject.append hbody) rfl)

theorem labeledStatement :
    Builds others last (fun stmt => [.statement stmt]) (Grammar.labeledStatement g) := by
  apply Builds.bind .identifier
  intro label hlabel
  apply Builds.symbol
  intro _
  apply Builds.bind (hg .statement .nil)
  intro body hbody
  exact .rangeFrom fun _ => .pure (.node (hlabel.append hbody) rfl)

theorem expressionStatement :
    Builds others last (fun stmt => [.statement stmt]) (Grammar.expressionStatement g) := by
  apply Builds.peek
  intro token
  apply Builds.bind (hg.expression false)
  intro value hvalue
  exact .semicolon (.rangeFrom fun _ => .pure (.node hvalue rfl))

theorem parameters :
    Builds others last (fun names => names.map .identifier) (Grammar.parameters g) := by
  apply Builds.eat
  intro eaten
  apply Builds.ite
  · exact .pure .nil
  · apply Builds.bind .identifier
    intro parameter hparameter
    have hmore : Builds others last (fun names => names.map .identifier)
        (g .parameters >>= fun names => pure (parameter :: names)) :=
      .bind (hg .parameters .nil) fun names h => .pure (hparameter.append h)
    apply Builds.isAt
    intro closes
    exact .ite (.symbol fun _ => hmore) hmore

end Parts

section For

variable (hg : g.Separating others last) (hs : g.Sound) (hw : ∀ word, g.Stays word)
include hg hs

theorem yields (p : Production α) (hp : Separated others p.given) (hc : c.Remains others last)
    (ha : p.Admits c) : (g p).Yields c fun a d =>
      d.Remains others last ∧ Separated others (p.row a) ∧ p.Spelled a c d := by
  intro a d he
  obtain ⟨hd, hrow⟩ := hg p hp c hc a d he
  obtain ⟨hclosed, hspelled⟩ := hs p c hc.closed ha a d he
  exact ⟨hclosed, hd, hrow, hspelled⟩

/-- The rest of a classic `for`: its separator is the first semicolon. -/
theorem forRest {init : Option Stmt} {b : Cursor} (hc : c.Remains others last)
    (hb : b.Along others) (hi : Stands (.init init) b c)
    (hrow : Separated others (init.toList.map .statement)) (hplain : NoFreeIn head)
    (hheads : ∀ separator d, c.Passes separator d →
      Heads others start (.init init) head separator) :
    (Grammar.forRest g start init).Yields c fun stmt d =>
      d.Remains others last ∧ Separated others [.statement stmt] := by
  have hoption {m : Cursor} (hm : m.Remains others last) :
      (some <$> g (.expression false)).Yields m fun value d => d.Remains others last ∧
        Separated others (value.toList.map .expression) ∧ Stands (.option value) m d :=
    .map (hg.yields hs (.expression false) .nil hm trivial)
      fun value d ⟨hd, hvalue, h⟩ => ⟨hd, hvalue, .option h⟩
  apply Yields.symbol hc.closed
  intro c₁ _ ⟨separator, hp, hk⟩
  have hc₁ := hc.passes hp
  apply Yields.isAt
  apply Yields.ite_bind (P := fun test d => d.Remains others last ∧
    Separated others (test.toList.map .expression) ∧ Stands (.option test) c₁ d)
  · exact fun _ => .pure hc₁.closed ⟨hc₁, .nil, .noOption⟩
  · exact fun _ => hoption hc₁
  intro test c₂ _ ⟨hc₂, htest, ht⟩
  apply Yields.symbol hc₂.closed
  intro c₃ _ hs'
  have hc₃ := hc₂.passes hs'.choose_spec.1
  apply Yields.isAt
  apply Yields.ite_bind (P := fun update d => d.Remains others last ∧
    Separated others (update.toList.map .expression) ∧ Stands (.option update) c₃ d)
  · exact fun _ => .pure hc₃.closed ⟨hc₃, .nil, .noOption⟩
  · exact fun _ => hoption hc₃
  intro update c₄ _ ⟨hc₄, hupdate, hu⟩
  apply Yields.symbol hc₄.closed
  intro c₅ _ hr
  have hc₅ := hc₄.passes hr.choose_spec.1
  apply Yields.bind (hg.yields hs .statement .nil hc₅ trivial)
  intro body d _ ⟨hd, hbody, h⟩
  have hchildren := ((hrow.append htest).append hupdate).append hbody
  have hright : Cursor.Lays others c₁ (test.toList.map .expression ++
      update.toList.map .expression ++ [.statement body]) d :=
    .cross ((((ht.lays.next hs'.crosses).append hu.lays).skip hr.lays).append h.lays)
  have hseparates : Piece.Separates others
      (.statement (.forStmt ⟨start, d.stop⟩ init test update body)) := fun _ =>
    ⟨separator, head, hheads separator c₁ hp, hplain, hk, hp.between hb hi.lays hright⟩
  exact .rangeFrom (.pure hd.closed ⟨hd, .cons hchildren hseparates⟩)

theorem forEachRest {left : Stmt} {right : Expr} {b m e : Cursor} (hc : c.Remains others last)
    (hb : b.Along others) (hl : Stands (.head left) b m) (hp : m.Passes separator e)
    (hj : kind.Joins separator) (hr : Stands (.expr right) e c)
    (hleft : Separated others [.statement left]) (hright : Separated others [.expression right])
    (hplain : NoFreeIn head) (hheads : Heads others start (.head left) head separator) :
    (Grammar.forEachRest g start kind left right).Yields c fun stmt d =>
      d.Remains others last ∧ Separated others [.statement stmt] := by
  apply Yields.symbol hc.closed
  intro c₁ _ hclose
  have hc₁ := hc.passes hclose.choose_spec.1
  apply Yields.bind (hg.yields hs .statement .nil hc₁ trivial)
  intro body d _ ⟨hd, hbody, h⟩
  have hchildren := hleft.append (hright.append hbody)
  have hbehind : Cursor.Lays others e [.expression right, .statement body] d :=
    .cross ((hr.lays.crosses.skip hclose.lays).append h.lays)
  have hseparates : Piece.Separates others
      (.statement (.forEach ⟨start, d.stop⟩ kind left right body)) := fun _ =>
    ⟨separator, head, hheads, hplain, hj, hp.between hb hl.lays hbehind⟩
  exact .rangeFrom (.pure hd.closed ⟨hd, .cons hchildren hseparates⟩)

include hw in
theorem forStatement (hc : c.Remains others last) (hk : c.current.kind = .keyword .for) :
    (Grammar.forStatement g).Yields c fun stmt d =>
      d.Remains others last ∧ Separated others [.statement stmt] := by
  apply Yields.bump hc.closed (by rw [hk]; nofun)
  intro c₁ _ hp
  have hc₁ := hc.passes hp
  apply Yields.symbol hc₁.closed
  intro c₂ _ hparen
  have hc₂ := hc₁.passes hparen.choose_spec.1
  have hhead : (Grammar.forHead g).Yields c₂ fun init d =>
      d.Remains others last ∧ Separated others (init.toList.map .statement) ∧
        Stands (.init init) c₂ d ∧ ∃ head, c₂.ahead = head ++ d.ahead ∧ NoFreeIn head := by
    intro init d he
    obtain ⟨hd, hrow⟩ := hg.forHead c₂ hc₂ init d he
    obtain ⟨hclosed, hinit⟩ := forHead_noFreeIn hs hw hc₂.closed init d he
    exact ⟨hclosed, hd, hrow, hinit⟩
  apply Yields.bind hhead
  intro init c₃ _ ⟨hc₃, hrow, hinit, head, hahead, hplain⟩
  have hheads {first : Phrase} (hf : Stands first c₂ c₃) (separator : Token) (d : Cursor)
      (h : c₃.Passes separator d) : Heads others c.current.range.start first head separator :=
    Cursor.PassesKeyword.heads ⟨_, hp, hk⟩ hparen hc.suffix hf hahead h
  have halong := hc₂.along
  cases init with
  | none => exact hg.forRest hs hc₃ halong hinit hrow hplain (hheads hinit)
  | some left =>
    have hleft : Stands (.head left) c₂ c₃ := by
      cases hinit with
      | init h => exact h
    apply Yields.eat hc₃.closed (by nofun)
    · intro c₄ _ ⟨separator, hsep, hin⟩
      have hc₄ := hc₃.passes hsep
      have hfirst := hheads hleft separator c₄ hsep
      apply Yields.bind (hg.yields hs (.expression false) .nil hc₄ trivial)
      intro right c₅ _ ⟨hc₅, hright, h⟩
      exact hg.forEachRest hs hc₅ halong hleft hsep hin h hrow hright hplain hfirst
    · intro _
      apply Yields.peek
      apply Yields.ite
      · intro hof
        have hne : c₃.current.kind ≠ .endOfFile := by
          rw [Grammar.Stays.kind_of_isOf hof]
          nofun
        apply Yields.bump hc₃.closed hne
        intro c₄ _ hsep
        have hc₄ := hc₃.passes hsep
        have hfirst := hheads hleft _ c₄ hsep
        apply Yields.bind (hg.yields hs (.assignment false) .nil hc₄ trivial)
        intro right c₅ _ ⟨hc₅, hright, h⟩
        exact hg.forEachRest hs hc₅ halong hleft hsep hof h hrow hright hplain hfirst
      · exact fun _ => hg.forRest hs hc₃ halong hinit hrow hplain (hheads hinit)

include hw in
theorem statement : Builds others last (fun stmt => [.statement stmt]) (Grammar.statement g) := by
  apply Builds.of_yields
  intro c hc
  refine .peek ?_
  split
  · exact hg.blockStatement.yields hc
  · exact emptyStatement.yields hc
  · exact (hg.declarationStatement .var).yields hc
  · exact (hg.declarationStatement .let).yields hc
  · exact (hg.declarationStatement .const).yields hc
  · exact hg.functionStatement.yields hc
  · exact hg.ifStatement.yields hc
  · exact hg.whileStatement.yields hc
  · exact hg.doStatement.yields hc
  · next hk => exact hg.forStatement hs hw hc hk
  · exact (jumpStatement .break).yields hc
  · exact (jumpStatement .continue).yields hc
  · exact hg.returnStatement.yields hc
  · exact hg.throwStatement.yields hc
  · exact hg.tryStatement.yields hc
  · exact hg.switchStatement.yields hc
  · exact hg.withStatement.yields hc
  · exact debuggerStatement.yields hc
  · have hname : Builds others last (fun stmt => [.statement stmt])
        (get >>= fun cursor : Cursor => if cursor.nextKind = .symbol .colon
          then Grammar.labeledStatement g else Grammar.expressionStatement g) :=
      .get fun _ => .ite hg.labeledStatement hg.expressionStatement
    exact hname.yields hc
  · exact hg.expressionStatement.yields hc

include hw in
theorem statements :
    Builds others last (fun stmts => stmts.map .statement) (Grammar.statements g) := by
  apply Builds.eat
  intro eaten
  apply Builds.ite
  · exact .pure .nil
  · apply Builds.isAt
    intro ends
    apply Builds.ite
    · exact .unexpected _
    · apply Builds.bind (hg.statement hs hw)
      intro stmt hstmt
      exact .bind (hg .statements .nil) fun stmts h => .pure (hstmt.append h)

include hw in
theorem clauseBody :
    Builds others last (fun stmts => stmts.map .statement) (Grammar.clauseBody g) := by
  apply Builds.peek
  intro token
  apply Builds.ite
  · exact .pure .nil
  · apply Builds.bind (hg.statement hs hw)
    intro stmt hstmt
    exact .bind (hg .clauseBody .nil) fun stmts h => .pure (hstmt.append h)

include hw in
theorem program : Builds others last (fun stmts => stmts.map .statement) (Grammar.program g) := by
  apply Builds.isAt
  intro ends
  apply Builds.ite
  · exact .pure .nil
  · apply Builds.bind (hg.statement hs hw)
    intro stmt hstmt
    exact .bind (hg .program .nil) fun stmts h => .pure (hstmt.append h)

end For

/-- Where the parts of a production have separators, the whole has. -/
theorem read (hg : g.Separating others last) (hs : g.Sound) (hw : ∀ word, g.Stays word) :
    Grammar.Separating others last (Grammar.read g) := by
  intro α p hp
  cases p with
  | program => exact hg.program hs hw
  | statement => exact hg.statement hs hw
  | statements => exact hg.statements hs hw
  | clauses => exact hg.clauses
  | clauseBody => exact hg.clauseBody hs hw
  | declarators noIn => exact hg.declarators noIn
  | parameters => exact hg.parameters
  | expression noIn => exact hg.expression noIn
  | commaParts noIn => exact hg.commaParts noIn
  | assignment noIn => exact hg.assignment noIn
  | binary least noIn => exact hg.binary least noIn
  | binaryRest least noIn left => exact hg.binaryRest hp least noIn
  | unary => exact hg.unary
  | suffixes target => exact hg.suffixes hp
  | members target => exact hg.members hp
  | construction => exact hg.construction
  | elements close => exact hg.elements close

end Grammar.Separating

theorem Grammar.separating_upTo (others : List Token) (last : Token) (bound : Nat) :
    Grammar.Separating others last (Grammar.upTo bound) := by
  induction bound with
  | zero => exact fun _ _ => .unexpected _
  | succ bound ih =>
    exact ih.read (Grammar.sound_upTo bound) fun word => Grammar.stays_upTo word bound

end FlowLint
