import FlowLint.Proofs.Grammar.RereadStatement

namespace FlowLint
set_option autoImplicit true

open TokenReader (Reads)
open Cursor (shows_append shows_cons shows_nil shows_enclosed)

namespace TokenKind

theorem stops_in : Stops true (.keyword .in) :=
  ⟨rfl, rfl, rfl, nofun, rfl⟩

theorem stops_name : Stops noIn .name :=
  ⟨rfl, rfl, rfl, nofun, rfl⟩

end TokenKind

/-- Up to its places, what stands first in the head of a `for` is read again where it is written. -/
def Stmt.HeadRereads (s : Stmt) : Prop :=
  ∀ c d : Cursor, c.Shows s.headWords d → Stmt.Rereads.EndsList true d.current.kind →
    Reads (Grammar.forHead Production.parse) c d fun s' =>
      Stmt.optionRelocate Range.forget s' = some s.unplaced

namespace Stmt.HeadRereads

variable {e : Expr} {ds : List Declarator} {range : Range}

theorem expression (h : e.Rereads) : HeadRereads (.expression range e) := by
  intro c d hs hd
  have hk := Expr.Rereads.current hs
  apply Reads.peek
  apply Reads.ite_neg (by rw [hk]; rintro ⟨⟩)
  simp only [hk, TokenKind.declarationKind?]
  refine .bind (.parse trivial (h.reads_expression hs hd.stops hd.ne_comma)) fun e' he => .pure ?_
  exact congrArg (fun e => some (Stmt.expression ⟨0, 0⟩ e)) he

theorem declaration (hds : ds ≠ []) (h : ∀ declarator ∈ ds, ∀ e ∈ declarator.init, e.Rereads) :
    HeadRereads (.declaration range kind ds) := by
  intro c d hs hd
  obtain ⟨m, hk, hsd⟩ := hs
  have hkind : (Word.keyword kind.keyword).kind.declarationKind? = some kind := by
    cases kind <;> rfl
  apply Reads.peek
  apply Reads.ite_neg (by rw [hk.current]; rintro ⟨⟩)
  simp only [hk.current, hkind]
  apply Reads.bump hk
  refine .bind (.parse trivial (Stmt.Rereads.reads_declarators hds h hsd hd)) fun ds' hds' => ?_
  refine .rangeFrom fun _ => .pure ?_
  exact congrArg (fun ds => some (Stmt.declaration ⟨0, 0⟩ kind ds)) hds'

end Stmt.HeadRereads

namespace Stmt.Rereads

variable {c d m : Cursor} {e t : Expr} {s : Stmt} {ss : List Stmt} {ds : List Declarator}
  {range : Range} {o : Option Expr} {id : Identifier}

section Simple

theorem expression (h : e.Rereads) : Rereads (.expression range e) := by
  intro c d hs hf ho
  simp only [Stmt.words, shows_append, shows_cons, shows_nil] at hs
  obtain ⟨m, hse, m', hw, rfl⟩ := hs
  apply Reads.peek
  simp only [Expr.Rereads.current hse]
  apply Reads.peek
  apply Reads.bind (reads_value h hse (.inl hw.current))
  intro e' he
  exact .semicolon hw (.rangeFrom fun _ => .pure (congrArg (Stmt.expression ⟨0, 0⟩) he))

theorem declaration (hds : ds ≠ []) (h : ∀ declarator ∈ ds, ∀ e ∈ declarator.init, e.Rereads) :
    Rereads (.declaration range kind ds) := by
  intro c d hs hf ho
  simp only [Stmt.words, shows_append, shows_cons, shows_nil] at hs
  obtain ⟨m, hk, m', hsd, m'', hw, rfl⟩ := hs
  have hend : EndsList false m'.current.kind := by
    rw [hw.current]
    exact ⟨TokenKind.stops_semicolon, by rintro ⟨⟩⟩
  have hread : Reads (Grammar.declarationStatement Production.parse kind) c m'' fun s' =>
      s'.unplaced = (Stmt.declaration range kind ds).unplaced := by
    apply Reads.bump hk
    refine .bind (.parse trivial (reads_declarators hds h hsd hend)) fun ds' hds' => ?_
    exact .semicolon hw (.rangeFrom fun _ => .pure (congrArg (Stmt.declaration ⟨0, 0⟩ kind) hds'))
  apply Reads.peek
  simp only [hk.current]
  cases kind with
  | var => exact hread
  | «let» => exact hread
  | const => exact hread

theorem function (h : ∀ s ∈ ss, s.Rereads) : Rereads (.function range id ids ss) := by
  intro c d hs hf ho
  simp only [Stmt.words, shows_append, shows_cons] at hs
  obtain ⟨m₁, hk, m₂, hn, m₃, hp, hb⟩ := hs
  apply Reads.peek
  simp only [hk.current, Word.kind]
  apply Reads.bump hk
  apply Reads.bind (.identifier hn)
  intro id' hid
  apply Reads.bind (reads_parameterList hp)
  intro ids' hids
  apply Reads.bind (reads_functionBody h hb)
  intro ss' hss
  refine .rangeFrom fun _ => .pure ?_
  simp only [Stmt.unplaced, Stmt.relocate, Range.forget, Identifier.relocate_forget_eq hid, hids,
    hss]

theorem empty : Rereads (.empty range) := by
  intro c d hs hf ho
  obtain ⟨m, hw, rfl⟩ := hs
  apply Reads.peek
  simp only [hw.current, Word.kind]
  exact .bump hw (.rangeFrom fun _ => .pure rfl)

theorem debugger : Rereads (.debugger range) := by
  intro c d hs hf ho
  obtain ⟨m, hk, m', hw, rfl⟩ := hs
  apply Reads.peek
  simp only [hk.current, Word.kind]
  exact .bump hk (.semicolon hw (.rangeFrom fun _ => .pure rfl))

theorem block (h : ∀ s ∈ ss, s.Rereads) : Rereads (.block range ss) := by
  intro c d hs hf ho
  apply Reads.peek
  simp only [Cursor.Shows.current_enclosed hs]
  apply Reads.bind (reads_block (b := ⟨range, ss⟩) h hs)
  rintro ⟨range', ss'⟩ hb
  exact .pure (congrArg (fun b : Block => Stmt.block b.range b.body) hb)

end Simple

section Jumps

theorem reads_jumpLabel {label : Option Identifier}
    (hs : c.Shows (label.toList.map fun id => .name id.name) d)
    (hd : d.current.kind = .symbol .semicolon) :
    Reads Grammar.jumpLabel c d fun label' =>
      label'.map (·.relocate Range.forget) = label.map (·.relocate Range.forget) := by
  apply Reads.peek
  cases label with
  | none =>
    obtain rfl := shows_nil.1 hs
    exact .ite_neg (by rw [hd]; rintro ⟨⟨⟩, -⟩) (.pure rfl)
  | some id =>
    obtain ⟨m, hw, rfl⟩ := hs
    apply Reads.ite_pos ⟨hw.current, hw.newlineBefore⟩
    apply Reads.map (.identifier hw)
    exact fun id' hid => congrArg some (Identifier.relocate_forget_eq hid)

theorem jump : Rereads (.jump range kind label) := by
  intro c d hs hf ho
  simp only [Stmt.words, shows_append, shows_cons, shows_nil] at hs
  obtain ⟨m, hk, m', hl, m'', hw, rfl⟩ := hs
  have hread : Reads (Grammar.jumpStatement kind) c m'' fun s' =>
      s'.unplaced = (Stmt.jump range kind label).unplaced := by
    apply Reads.bump hk
    apply Reads.bind (reads_jumpLabel hl hw.current)
    intro label' hlabel
    exact .semicolon hw (.rangeFrom fun _ => .pure (congrArg (Stmt.jump ⟨0, 0⟩ kind) hlabel))
  apply Reads.peek
  simp only [hk.current]
  cases kind with
  | «break» => exact hread
  | «continue» => exact hread

theorem returnStmt (h : ∀ e ∈ o, e.Rereads) : Rereads (.returnStmt range o) := by
  intro c d hs hf ho
  simp only [Stmt.words, shows_append, shows_cons, shows_nil] at hs
  obtain ⟨m, hk, m', hse, m'', hw, rfl⟩ := hs
  apply Reads.peek
  simp only [hk.current, Word.kind]
  apply Reads.bump hk
  refine .peek (.ite_bind (m := m') (P := fun o' =>
    Expr.optionRelocate Range.forget o' = Expr.optionRelocate Range.forget o)
    (fun he => ?_) (fun he => ?_) fun o' ho => ?_)
  · cases o with
    | none =>
      obtain rfl := shows_nil.1 hse
      exact .pure rfl
    | some e =>
      simp [TokenReader.endsStatement, TokenReader.impliesEnd, Expr.Rereads.current hse,
        Cursor.Shows.newlineBefore_enclosed hse] at he
  · cases o with
    | none =>
      obtain rfl := shows_nil.1 hse
      simp [TokenReader.endsStatement, hw.current, Word.kind] at he
    | some e =>
      exact .map (.parse trivial (reads_value (h e rfl) hse (.inl hw.current)))
        fun e' he' => congrArg some he'
  · exact .semicolon hw (.rangeFrom fun _ => .pure (congrArg (Stmt.returnStmt ⟨0, 0⟩) ho))

theorem throwStmt (h : e.Rereads) : Rereads (.throwStmt range e) := by
  intro c d hs hf ho
  simp only [Stmt.words, shows_append, shows_cons, shows_nil] at hs
  obtain ⟨m, hk, m', hse, m'', hw, rfl⟩ := hs
  have hn : m.current.newlineBefore = false := Cursor.Shows.newlineBefore_enclosed hse
  apply Reads.peek
  simp only [hk.current, Word.kind]
  apply Reads.bump hk
  apply Reads.peek
  apply Reads.ite_neg (by rw [hn]; rintro ⟨⟩)
  refine .bind (.parse trivial (reads_value h hse (.inl hw.current))) fun e' he => ?_
  exact .semicolon hw (.rangeFrom fun _ => .pure (congrArg (Stmt.throwStmt ⟨0, 0⟩) he))

theorem labeled (h : s.Rereads) : Rereads (.labeled range id s) := by
  intro c d hs hf ho
  obtain ⟨m, hn, m', hc, hss⟩ := hs
  apply Reads.peek
  simp only [hn.current, Word.kind]
  apply Reads.get
  apply Reads.ite_pos (hn.nextKind.trans hc.current)
  apply Reads.bind (.identifier hn)
  intro id' hid
  apply Reads.symbol hc
  refine .bind (.parse trivial (h _ _ hss hf ho)) fun s' hs' => .rangeFrom fun _ => .pure ?_
  exact congrArg₂ (Stmt.labeled ⟨0, 0⟩) (Identifier.relocate_forget_eq hid) hs'

end Jumps

section Branches

theorem withStmt (ht : e.Rereads) (h : s.Rereads) : Rereads (.withStmt range e s) := by
  intro c d hs hf ho
  simp only [Stmt.words, shows_append, shows_cons] at hs
  obtain ⟨m, hk, m', hse, hss⟩ := hs
  apply Reads.peek
  simp only [hk.current, Word.kind]
  apply Reads.bump hk
  apply Reads.bind (reads_test ht hse)
  intro e' he
  refine .bind (.parse trivial (h _ _ hss hf ho)) fun s' hs' => .rangeFrom fun _ => .pure ?_
  exact congrArg₂ (Stmt.withStmt ⟨0, 0⟩) he hs'

theorem whileStmt (ht : e.Rereads) (h : s.Rereads) : Rereads (.whileStmt range e s) := by
  intro c d hs hf ho
  simp only [Stmt.words, shows_append, shows_cons] at hs
  obtain ⟨m, hk, m', hse, hss⟩ := hs
  apply Reads.peek
  simp only [hk.current, Word.kind]
  apply Reads.bump hk
  apply Reads.bind (reads_test ht hse)
  intro e' he
  refine .bind (.parse trivial (h _ _ hss hf ho)) fun s' hs' => .rangeFrom fun _ => .pure ?_
  exact congrArg₂ (Stmt.whileStmt ⟨0, 0⟩) he hs'

theorem doStmt (h : s.Rereads) (ht : e.Rereads) : Rereads (.doStmt range s e) := by
  intro c d hs hf ho
  simp only [Stmt.words, shows_append, shows_cons, shows_nil] at hs
  obtain ⟨m₁, hk, m₂, hss, m₃, hw, m₄, hse, m₅, hend, rfl⟩ := hs
  have hbody : Reads (Grammar.statement Production.parse) m₁ m₂ fun s' =>
      s'.unplaced = s.unplaced := by
    apply h _ _ hss
    · rw [hw.current]
      rintro ⟨⟩
    · intro _
      rw [hw.current]
      rintro ⟨⟩
  apply Reads.peek
  simp only [hk.current, Word.kind]
  apply Reads.bump hk
  refine .bind (.parse trivial hbody) fun s' hs' => .keyword hw ?_
  apply Reads.bind (reads_test ht hse)
  intro e' he
  apply Reads.eat_true hend rfl
  exact .rangeFrom fun _ => .pure (congrArg₂ (Stmt.doStmt ⟨0, 0⟩) hs' he)

theorem reads_orElse {orElse : Option Stmt} (h : ∀ s ∈ orElse, s.Rereads)
    (hs : c.Shows (Stmt.elseWords orElse) d) (hf : d.current.kind ≠ .keyword .finally)
    (ho : (Phrase.orElse orElse).endsOpen = true → d.current.kind ≠ .keyword .else) :
    Reads (TokenReader.eat (.keyword .else) >>= fun eaten =>
      if eaten then some <$> Production.parse .statement else pure none) c d fun orElse' =>
        Stmt.optionRelocate Range.forget orElse' = Stmt.optionRelocate Range.forget orElse := by
  cases orElse with
  | none =>
    obtain rfl := shows_nil.1 hs
    exact .eat_false (ho rfl) (.pure rfl)
  | some s =>
    obtain ⟨m, hk, hss⟩ := hs
    apply Reads.eat_true hk rfl
    exact .map (.parse trivial (h s rfl _ _ hss hf ho)) fun s' hs' => congrArg some hs'

/-- A body that an `else` stands behind does not end in an `if` that would take it. -/
theorem ifStmt {orElse : Option Stmt} (ht : e.Rereads) (h : s.Rereads)
    (he : ∀ s ∈ orElse, s.Rereads) (hc : orElse.isSome = true → s.endsOpen = false) :
    Rereads (.ifStmt range e s orElse) := by
  intro c d hs hf ho
  simp only [Stmt.words, shows_append, shows_cons] at hs
  obtain ⟨m₁, hk, m₂, hse, m₃, hss, hso⟩ := hs
  have hbody : Reads (Grammar.statement Production.parse) m₂ m₃ fun s' =>
      s'.unplaced = s.unplaced := by
    cases orElse with
    | none =>
      obtain rfl := shows_nil.1 hso
      exact h _ _ hss hf fun _ => ho rfl
    | some s' =>
      obtain ⟨m, hw, -⟩ := hso
      apply h _ _ hss
      · rw [hw.current]
        rintro ⟨⟩
      · rw [hc rfl]
        rintro ⟨⟩
  apply Reads.peek
  simp only [hk.current, Word.kind]
  apply Reads.bump hk
  apply Reads.bind (reads_test ht hse)
  intro e' he'
  refine .bind (.parse trivial hbody) fun s' hs' => ?_
  refine .bind_ite (reads_orElse he hso hf (Phrase.endsOpen_ifStmt ▸ ho)) fun orElse' hor => ?_
  refine .rangeFrom fun _ => .pure ?_
  change Stmt.ifStmt ⟨0, 0⟩ e'.unplaced s'.unplaced (Stmt.optionRelocate Range.forget orElse') = _
  rw [he', hs', hor]
  rfl

end Branches

section Loops

theorem reads_init {init : Option Stmt} (h : ∀ s ∈ init, s.HeadRereads)
    (hs : c.Shows (Stmt.initWords init) d) (hd : d.current.kind = .symbol .semicolon) :
    Reads (Grammar.forHead Production.parse) c d fun init' =>
      Stmt.optionRelocate Range.forget init' = Stmt.optionRelocate Range.forget init := by
  cases init with
  | none =>
    obtain rfl := shows_nil.1 hs
    exact .peek (.ite_pos hd (.pure rfl))
  | some s =>
    apply h s rfl _ _ hs
    rw [hd]
    exact ⟨TokenKind.stops_semicolon, by rintro ⟨⟩⟩

theorem reads_option (h : ∀ e ∈ o, e.Rereads) (hs : c.Shows (Expr.optionWords o) d)
    (hd : d.current.kind = kind) (hk : kind = .symbol .semicolon ∨ kind = .symbol .rightParen) :
    Reads (TokenReader.isAt kind >>= fun found =>
      if found then pure none else some <$> Production.parse (.expression false)) c d fun o' =>
        Expr.optionRelocate Range.forget o' = Expr.optionRelocate Range.forget o := by
  cases o with
  | none =>
    obtain rfl := shows_nil.1 hs
    exact .isAt_true hd (.pure rfl)
  | some e =>
    have hr : Reads (Grammar.expression Production.parse false) c d fun e' =>
        e'.unplaced = e.unplaced :=
      reads_value (h e rfl) hs (hd ▸ hk.imp_right .inl)
    apply Reads.isAt_false
    · rw [Expr.Rereads.current hs]
      rcases hk with rfl | rfl <;> rintro ⟨⟩
    · exact .map (.parse trivial hr) fun e' he => congrArg some he

theorem forStmt {init : Option Stmt} {test update : Option Expr} (hi : ∀ s ∈ init, s.HeadRereads)
    (ht : ∀ e ∈ test, e.Rereads) (hu : ∀ e ∈ update, e.Rereads) (h : s.Rereads) :
    Rereads (.forStmt range init test update s) := by
  intro c d hs hf ho
  simp only [Stmt.words, shows_append, shows_cons] at hs
  obtain ⟨m₁, hk, m₂, hl, m₃, hsi, m₄, hw, m₅, hst, m₆, hw', m₇, hsu, m₈, hr, hss⟩ := hs
  have hrest {init' : Option Stmt}
      (hinit : Stmt.optionRelocate Range.forget init' = Stmt.optionRelocate Range.forget init) :
      Reads (Grammar.forRest Production.parse c.current.range.start init') m₃ d fun s' =>
        s'.unplaced = (Stmt.forStmt range init test update s).unplaced := by
    apply Reads.symbol hw
    refine .bind_ite (reads_option ht hst hw'.current (.inl rfl)) fun test' htest => ?_
    apply Reads.symbol hw'
    refine .bind_ite (reads_option hu hsu hr.current (.inr rfl)) fun update' hupdate => ?_
    apply Reads.symbol hr
    refine .bind (.parse trivial (h _ _ hss hf ho)) fun s' hs' => .rangeFrom fun _ => .pure ?_
    change Stmt.forStmt ⟨0, 0⟩ (Stmt.optionRelocate Range.forget init')
      (Expr.optionRelocate Range.forget test') (Expr.optionRelocate Range.forget update')
      s'.unplaced = _
    rw [hinit, htest, hupdate, hs']
    rfl
  apply Reads.peek
  simp only [hk.current, Word.kind]
  apply Reads.bump hk
  apply Reads.symbol hl
  apply Reads.bind (reads_init hi hsi hw.current)
  intro init' hinit
  cases init' with
  | none => exact hrest hinit
  | some left =>
    have hof : ¬ m₃.current.isOf = true := by simp [Token.isOf, hw.current, Word.kind]
    apply Reads.eat_false (by rw [hw.current]; rintro ⟨⟩)
    exact .peek (.ite_neg hof (hrest hinit))

theorem forEach {left : Stmt} (hl : left.HeadRereads) (he : e.Rereads) (h : s.Rereads) :
    Rereads (.forEach range kind left e s) := by
  intro c d hs hf ho
  simp only [Stmt.words, shows_append, shows_cons] at hs
  obtain ⟨m₁, hk, m₂, hp, m₃, hsl, m₄, hw, m₅, hse, m₆, hr, hss⟩ := hs
  have hrest {left' : Stmt} {e' : Expr} (hleft : left'.unplaced = left.unplaced)
      (he' : e'.unplaced = e.unplaced) :
      Reads (Grammar.forEachRest Production.parse c.current.range.start kind left' e') m₅ d fun s' =>
        s'.unplaced = (Stmt.forEach range kind left e s).unplaced := by
    apply Reads.symbol hr
    refine .bind (.parse trivial (h _ _ hss hf ho)) fun s' hs' => .rangeFrom fun _ => .pure ?_
    change Stmt.forEach ⟨0, 0⟩ kind left'.unplaced e'.unplaced s'.unplaced = _
    rw [hleft, he', hs']
    rfl
  have hend : EndsList true m₃.current.kind := by
    rw [hw.current]
    cases kind with
    | keys => exact ⟨TokenKind.stops_in, by rintro ⟨⟩⟩
    | items => exact ⟨TokenKind.stops_name, by rintro ⟨⟩⟩
  apply Reads.peek
  simp only [hk.current, Word.kind]
  apply Reads.bump hk
  apply Reads.symbol hp
  apply Reads.bind (hl _ _ hsl hend)
  rintro (_ | left') hleft
  · cases hleft
  · have hleft := Option.some.inj hleft
    cases kind with
    | keys =>
      apply Reads.eat_true hw rfl
      exact .bind (.parse trivial (reads_value he hse (.inr (.inl hr.current)))) fun e' he' =>
        hrest hleft he'
    | items =>
      have hof : m₃.current.isOf = true := by
        simp [Token.isOf, hw.current, hw.text_current, EachKind.word, Word.kind, Word.text]
      have hstop : m₅.current.kind.Stops false := by
        rw [hr.current]
        exact TokenKind.stops_rightParen
      apply Reads.eat_false (by rw [hw.current]; rintro ⟨⟩)
      refine .peek (.ite_pos hof (.bump hw ?_))
      exact .bind (.parse trivial (he.reads_assignment hse hstop)) fun e' he' => hrest hleft he'

end Loops

section Clauses

theorem reads_handlerParameter (h : ∀ e ∈ o, e.Rereads)
    (hs : c.Shows (Expr.parameterWords o) d) (hd : d.current.kind = .symbol .leftBrace) :
    Reads (Grammar.handlerParameter Production.parse) c d fun o' =>
      Expr.optionRelocate Range.forget o' = Expr.optionRelocate Range.forget o := by
  cases o with
  | none =>
    obtain rfl := shows_nil.1 hs
    exact .eat_false (by rw [hd]; rintro ⟨⟩) (.pure rfl)
  | some e =>
    obtain ⟨m, hl, m', hse, hr⟩ := shows_enclosed.1 hs
    apply Reads.eat_true hl rfl
    apply Reads.bind ((h e rfl).reads_primary hse)
    intro e' he
    exact .symbol hr (.pure (congrArg some he))

/-- What a handler is made of is read again. -/
structure Handles (handler : Handler) : Prop where
  parameter : ∀ e ∈ handler.parameter, e.Rereads
  body : ∀ s ∈ handler.body.body, s.Rereads

theorem reads_handler {handler : Option Handler} (h : ∀ handler' ∈ handler, Handles handler')
    (hs : c.Shows (Handler.words handler) d)
    (hd : handler = none → d.current.kind ≠ .keyword .catch) :
    Reads (Grammar.handler Production.parse) c d fun handler' =>
      Handler.optionRelocate Range.forget handler' = Handler.optionRelocate Range.forget handler := by
  cases handler with
  | none =>
    obtain rfl := shows_nil.1 hs
    exact .isAt_false (hd rfl) (.ite_neg Bool.false_ne_true (.pure rfl))
  | some handler =>
    obtain ⟨range, parameter, ⟨blockRange, body⟩⟩ := handler
    obtain ⟨hp, hb⟩ := h _ rfl
    simp only [Handler.words, shows_cons, shows_append] at hs
    obtain ⟨m, hk, m', hsp, hsb⟩ := hs
    have hl : m'.current.kind = .symbol .leftBrace := Cursor.Shows.current_enclosed hsb
    apply Reads.isAt_true hk.current
    refine .ite_pos rfl (.bump hk ?_)
    apply Reads.bind (reads_handlerParameter hp hsp hl)
    intro o' ho
    apply Reads.bind (reads_block hb hsb)
    intro b' hb'
    refine .rangeFrom fun _ => .pure ?_
    simp only [Handler.optionRelocate, Range.forget, ho, hb']

theorem reads_finalizer {finalizer : Option Block} (h : ∀ b ∈ finalizer, ∀ s ∈ b.body, s.Rereads)
    (hs : c.Shows (Block.finallyWords finalizer) d) (hd : d.current.kind ≠ .keyword .finally) :
    Reads (Grammar.finalizer Production.parse) c d fun finalizer' =>
      Block.optionRelocate Range.forget finalizer' =
        Block.optionRelocate Range.forget finalizer := by
  cases finalizer with
  | none =>
    obtain rfl := shows_nil.1 hs
    exact .eat_false hd (.pure rfl)
  | some b =>
    obtain ⟨m, hk, hsb⟩ := hs
    apply Reads.eat_true hk rfl
    exact .map (reads_block (h b rfl) hsb) fun b' hb => congrArg some hb

theorem tryStmt {b : Block} {handler : Option Handler} {finalizer : Option Block}
    (hb : ∀ s ∈ b.body, s.Rereads) (hh : ∀ handler' ∈ handler, Handles handler')
    (hfin : ∀ b ∈ finalizer, ∀ s ∈ b.body, s.Rereads)
    (hsome : (handler.isNone && finalizer.isNone) = false) :
    Rereads (.tryStmt range b handler finalizer) := by
  intro c d hs hf ho
  simp only [Stmt.words, shows_append, shows_cons] at hs
  obtain ⟨m₁, hk, m₂, hsb, m₃, hsh, hsf⟩ := hs
  have hcatch : handler = none → m₃.current.kind ≠ .keyword .catch := by
    rintro rfl
    obtain ⟨b', rfl⟩ := Option.isSome_iff_exists.1
      (show finalizer.isSome = true by simpa using hsome)
    obtain ⟨m, hw, -⟩ := hsf
    rw [hw.current]
    rintro ⟨⟩
  apply Reads.peek
  simp only [hk.current, Word.kind]
  apply Reads.bump hk
  apply Reads.bind (reads_block hb hsb)
  intro b' hb'
  apply Reads.bind (reads_handler hh hsh hcatch)
  intro handler' hhandler
  apply Reads.bind (reads_finalizer hfin hsf hf)
  intro finalizer' hfinalizer
  have hsome' : ¬ (handler'.isNone && finalizer'.isNone) = true := by
    rw [← Handler.isNone_optionRelocate Range.forget handler', hhandler,
      ← Block.isNone_optionRelocate Range.forget finalizer', hfinalizer,
      Handler.isNone_optionRelocate, Block.isNone_optionRelocate, hsome]
    rintro ⟨⟩
  refine .ite_neg hsome' (.rangeFrom fun _ => .pure ?_)
  change Stmt.tryStmt ⟨0, 0⟩ (b'.relocate Range.forget) _ _ = _
  rw [hb', hhandler, hfinalizer]
  rfl

theorem reads_clauseTest (h : ∀ e ∈ o, e.Rereads) (hs : c.Shows (Expr.testWords o) d)
    (hd : d.current.kind = .symbol .colon) :
    Reads (Grammar.clauseTest Production.parse) c d fun o' =>
      Expr.optionRelocate Range.forget o' = Expr.optionRelocate Range.forget o := by
  cases o with
  | none =>
    obtain ⟨m, hk, rfl⟩ := hs
    apply Reads.eat_false (by rw [hk.current]; rintro ⟨⟩)
    exact .eat_true hk rfl (.pure rfl)
  | some e =>
    obtain ⟨m, hk, hse⟩ := hs
    apply Reads.eat_true hk rfl
    exact .map (.parse trivial (reads_value (h e rfl) hse (.inr (.inr hd)))) fun e' he =>
      congrArg some he

/-- What a clause of a `switch` is made of is read again. -/
structure Selects (clause : Clause) : Prop where
  test : ∀ e ∈ clause.test, e.Rereads
  body : ∀ s ∈ clause.body, s.Rereads

theorem current_testWords (hs : c.Shows (Expr.testWords o) d) :
    c.current.kind = .keyword .case ∨ c.current.kind = .keyword .default := by
  cases o with
  | none =>
    obtain ⟨m, hk, -⟩ := hs
    exact .inr hk.current
  | some e =>
    obtain ⟨m, hk, -⟩ := hs
    exact .inl hk.current

theorem endsClause_current (hs : c.Shows (Clause.words clauses) d)
    (hd : d.current.kind = .symbol .rightBrace) : Grammar.endsClause c.current.kind = true := by
  cases clauses with
  | nil =>
    obtain rfl := shows_nil.1 hs
    rw [hd]
    rfl
  | cons clause clauses =>
    obtain ⟨range, test, body⟩ := clause
    obtain ⟨m, hst, -⟩ := shows_append.1 hs
    rcases current_testWords hst with hk | hk
    · rw [hk]
      rfl
    · rw [hk]
      rfl

theorem reads_clauses (h : ∀ clause ∈ clauses, Selects clause)
    (hs : c.Shows (Clause.words clauses) m) (hr : m.PassesWord (.symbol .rightBrace) d) :
    Reads (Grammar.clauses Production.parse) c d fun clauses' =>
      Clause.relocates Range.forget clauses' = Clause.relocates Range.forget clauses := by
  induction clauses generalizing c with
  | nil =>
    obtain rfl := shows_nil.1 hs
    exact .eat_true hr rfl (.pure rfl)
  | cons clause clauses ih =>
    obtain ⟨⟨ht, hb⟩, hrest⟩ := List.forall_mem_cons.1 h
    obtain ⟨range, test, body⟩ := clause
    simp only [Clause.words, shows_append, shows_cons] at hs
    obtain ⟨m₁, hst, m₂, hc, m₃, hsb, hs⟩ := hs
    have hne : c.current.kind ≠ .symbol .rightBrace := by
      rcases current_testWords hst with hk | hk <;> rw [hk] <;> rintro ⟨⟩
    apply Reads.eat_false hne
    apply Reads.peek
    apply Reads.bind (reads_clauseTest ht hst hc.current)
    intro test' htest
    apply Reads.symbol hc
    refine .bind (.parse trivial (reads_clauseBody hb hsb (endsClause_current hs hr.current)))
      fun body' hbody => .rangeFrom fun _ => ?_
    refine .bind (.parse trivial (ih hrest hs)) fun clauses' hclauses => .pure ?_
    simp only [Clause.relocates, Range.forget, htest, hbody, hclauses]

theorem switchStmt (he : e.Rereads) (h : ∀ clause ∈ clauses, Selects clause) :
    Rereads (.switchStmt range e clauses) := by
  intro c d hs hf ho
  simp only [Stmt.words, shows_append, shows_cons] at hs
  obtain ⟨m, hk, m', hse, hsc⟩ := hs
  obtain ⟨m₁, hl, m₂, hsc, hr⟩ := shows_enclosed.1 hsc
  apply Reads.peek
  simp only [hk.current, Word.kind]
  apply Reads.bump hk
  apply Reads.bind (reads_test he hse)
  intro e' he'
  apply Reads.symbol hl
  refine .bind (.parse trivial (reads_clauses h hsc hr)) fun clauses' hclauses => ?_
  exact .rangeFrom fun _ => .pure (congrArg₂ (Stmt.switchStmt ⟨0, 0⟩) he' hclauses)

end Clauses

end Stmt.Rereads

end FlowLint
