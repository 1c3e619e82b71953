import FlowLint.Proofs.Grammar.Phrase
import FlowLint.Proofs.Grammar.RereadExpression

namespace FlowLint
set_option autoImplicit true

open TokenReader (Reads)
open Cursor (shows_append shows_cons shows_nil shows_enclosed)

/-- Whether a statement ends in an `if` without an `else`. -/
def Stmt.endsOpen : Stmt → Bool
  | .ifStmt _ _ _ none => true
  | .ifStmt _ _ _ (some orElse) => orElse.endsOpen
  | .whileStmt _ _ body | .forStmt _ _ _ _ body | .forEach _ _ _ _ body | .labeled _ _ body
  | .withStmt _ _ body => body.endsOpen
  | _ => false

/-- Whether a token that ends a list of statements, or goes on with the statement before. -/
def TokenKind.closes : TokenKind → Bool
  | .keyword .else | .keyword .finally | .keyword .case | .keyword .default
  | .symbol .rightBrace | .endOfFile => true
  | _ => false

def Phrase.endsOpen : Phrase → Bool
  | .stmt s => s.endsOpen
  | .orElse none => true
  | .orElse (some s) => s.endsOpen
  | _ => false

theorem Phrase.endsOpen_ifStmt {t : Expr} {o : Option Stmt} :
    (Phrase.stmt (.ifStmt range t body o)).endsOpen = (Phrase.orElse o).endsOpen := by
  cases o <;> rfl

/-- An `else` behind a statement goes to the last `if` in it that has none. -/
theorem Stands.current_ne_else (h : Stands p c d) (ho : p.endsOpen = true) :
    d.current.kind ≠ .keyword .else := by
  induction h with
  | ifStmt _ _ _ _ _ _ ih => exact ih (Phrase.endsOpen_ifStmt ▸ ho)
  | whileStmt _ _ _ _ ih => exact ih ho
  | forStmt _ _ _ _ _ _ _ _ _ _ _ _ ih => exact ih ho
  | forEach _ _ _ _ _ _ _ _ _ ih => exact ih ho
  | labeled _ _ _ ih => exact ih ho
  | withStmt _ _ _ _ ih => exact ih ho
  | noElse h => exact h
  | orElse _ _ ih => exact ih ho
  | _ => cases ho

/-- The first word of a statement ends no statement. -/
theorem Stmt.exists_words (s : Stmt) :
    ∃ word words, s.words = word :: words ∧ word.kind.closes = false := by
  cases s with
  | declaration range kind => cases kind <;> exact ⟨_, _, rfl, rfl⟩
  | jump range kind => cases kind <;> exact ⟨_, _, rfl, rfl⟩
  | _ => exact ⟨_, _, rfl, rfl⟩

/-- Up to its places, the statement is read again where it is written, unless what follows goes on
with it. -/
def Stmt.Rereads (s : Stmt) : Prop :=
  ∀ c d : Cursor, c.Shows s.words d → d.current.kind ≠ .keyword .finally →
    (s.endsOpen = true → d.current.kind ≠ .keyword .else) →
    Reads (Grammar.statement Production.parse) c d fun s' => s'.unplaced = s.unplaced

namespace Stmt.Rereads

variable {c d m : Cursor} {e : Expr} {s : Stmt} {ss : List Stmt} {range : Range}

theorem closes_current (hs : c.Shows s.words d) : c.current.kind.closes = false := by
  obtain ⟨word, words, he, hk⟩ := s.exists_words
  rw [he] at hs
  obtain ⟨m, hw, -⟩ := hs
  rw [hw.current, hk]

theorem current_ne_of_closes {kind : TokenKind} (hc : c.current.kind.closes = false)
    (hk : kind.closes = true) : c.current.kind ≠ kind := by
  rintro rfl
  rw [hk] at hc
  cases hc

theorem not_endsClause_of_closes (hc : c.current.kind.closes = false) :
    ¬ Grammar.endsClause c.current.kind = true := by
  intro he
  unfold Grammar.endsClause at he
  split at he
  · next hk => exact current_ne_of_closes hc rfl hk
  · next hk => exact current_ne_of_closes hc rfl hk
  · next hk => exact current_ne_of_closes hc rfl hk
  · next hk => exact current_ne_of_closes hc rfl hk
  · cases he

section Lists

/-- What a list of statements may stand in front of. -/
structure Follows (kind : TokenKind) : Prop where
  ne_else : kind ≠ .keyword .else
  ne_finally : kind ≠ .keyword .finally

theorem follows_of_shows (hs : c.Shows (Stmt.listWords ss) d) (hd : Follows d.current.kind) :
    Follows c.current.kind := by
  cases ss with
  | nil => exact shows_nil.1 hs ▸ hd
  | cons s ss =>
    obtain ⟨m, hs, -⟩ := shows_append.1 hs
    have hc := closes_current hs
    exact ⟨current_ne_of_closes hc rfl, current_ne_of_closes hc rfl⟩

/-- A production reads a list of statements again if it reads the end of the list, and elsewhere a
statement and the rest of the list. -/
theorem reads_list {p : Production (List Stmt)} (hp : ∀ c, p.Admits c)
    (hnil : Reads (Grammar.read Production.parse p) m d fun ss => ss = [])
    (hcons : ∀ (c : Cursor) (P : List Stmt → Prop), c.current.kind.closes = false →
      Reads (Grammar.statement Production.parse >>= fun s => p.parse >>= fun ss => pure (s :: ss))
        c d P → Reads (Grammar.read Production.parse p) c d P)
    (h : ∀ s ∈ ss, s.Rereads) (hs : c.Shows (Stmt.listWords ss) m) (hm : Follows m.current.kind) :
    Reads (Grammar.read Production.parse p) c d fun ss' =>
      Stmt.relocates Range.forget ss' = Stmt.relocates Range.forget ss := by
  induction ss generalizing c with
  | nil =>
    obtain rfl := shows_nil.1 hs
    exact hnil.mono fun ss' he => he ▸ rfl
  | cons s ss ih =>
    obtain ⟨hr, hrs⟩ := List.forall_mem_cons.1 h
    obtain ⟨m', hss, hrest⟩ := shows_append.1 hs
    have hf := follows_of_shows hrest hm
    refine hcons c _ (closes_current hss) (.bind (hr c m' hss hf.ne_finally fun _ => hf.ne_else) ?_)
    exact fun s' hs' => .bind (.parse (hp m') (ih hrs hrest)) fun ss' hss' =>
      .pure (congrArg₂ List.cons hs' hss')

theorem reads_statements (h : ∀ s ∈ ss, s.Rereads) (hs : c.Shows (Stmt.listWords ss) m)
    (hr : m.PassesWord (.symbol .rightBrace) d) :
    Reads (Grammar.statements Production.parse) c d fun ss' =>
      Stmt.relocates Range.forget ss' = Stmt.relocates Range.forget ss := by
  refine reads_list (p := .statements) (fun _ => trivial) (.eat_true hr rfl (.pure rfl)) ?_ h hs
    (by rw [hr.current]; exact ⟨nofun, nofun⟩)
  exact fun c P hc h => .eat_false (current_ne_of_closes hc rfl)
    (.isAt_false (current_ne_of_closes hc rfl) (.ite_neg Bool.false_ne_true h))

theorem reads_clauseBody (h : ∀ s ∈ ss, s.Rereads) (hs : c.Shows (Stmt.listWords ss) d)
    (hd : Grammar.endsClause d.current.kind = true) :
    Reads (Grammar.clauseBody Production.parse) c d fun ss' =>
      Stmt.relocates Range.forget ss' = Stmt.relocates Range.forget ss := by
  refine reads_list (p := .clauseBody) (fun _ => trivial) (.peek (.ite_pos hd (.pure rfl))) ?_ h hs
    ⟨fun hk => ?_, fun hk => ?_⟩
  · exact fun c P hc h => .peek (.ite_neg (not_endsClause_of_closes hc) h)
  · rw [hk] at hd
    cases hd
  · rw [hk] at hd
    cases hd

theorem reads_program (h : ∀ s ∈ ss, s.Rereads) (hs : c.Shows (Stmt.listWords ss) d)
    (hd : d.current.kind = .endOfFile) :
    Reads (Grammar.program Production.parse) c d fun ss' =>
      Stmt.relocates Range.forget ss' = Stmt.relocates Range.forget ss := by
  refine reads_list (p := .program) (fun _ => trivial) (.isAt_true hd (.ite_pos rfl (.pure rfl))) ?_
    h hs (by rw [hd]; exact ⟨nofun, nofun⟩)
  exact fun c P hc h => .isAt_false (current_ne_of_closes hc rfl) (.ite_neg Bool.false_ne_true h)

end Lists

section Functions

theorem reads_parameters (hs : c.Shows (Word.names ids) m)
    (hr : m.PassesWord (.symbol .rightParen) d) :
    Reads (Grammar.parameters Production.parse) c d fun ids' =>
      ids'.map (·.relocate Range.forget) = ids.map (·.relocate Range.forget) := by
  induction ids generalizing c with
  | nil =>
    obtain rfl := shows_nil.1 hs
    exact .eat_true hr rfl (.pure rfl)
  | cons id ids ih =>
    have hmore {b : Cursor} {id' : Identifier} (hid : id'.name = id.name)
        (hb : b.Shows (Word.names ids) m) :
        Reads (Production.parse .parameters >>= fun others => pure (id' :: others)) b d fun ids' =>
          ids'.map (·.relocate Range.forget) = (id :: ids).map (·.relocate Range.forget) :=
      .bind (.parse trivial (ih hb)) fun others ho => .pure
        (congrArg₂ List.cons (Identifier.relocate_forget_eq hid) ho)
    cases ids with
    | nil =>
      obtain ⟨m', hw, rfl⟩ := hs
      refine .eat_false (by rw [hw.current]; rintro ⟨⟩) (.bind (.identifier hw) fun id' hid => ?_)
      exact .isAt_true hr.current (.ite_neg Bool.false_ne_true (hmore hid rfl))
    | cons id₂ ids =>
      obtain ⟨m₁, hw, m₂, hc, hrest⟩ := hs
      refine .eat_false (by rw [hw.current]; rintro ⟨⟩) (.bind (.identifier hw) fun id' hid => ?_)
      refine .isAt_false (by rw [hc.current]; rintro ⟨⟩) (.ite_pos rfl ?_)
      exact .symbol hc (hmore hid hrest)

theorem reads_parameterList (hs : c.Shows (Word.parenthesized (Word.names ids)) d) :
    Reads (Grammar.parameterList Production.parse) c d fun ids' =>
      ids'.map (·.relocate Range.forget) = ids.map (·.relocate Range.forget) := by
  obtain ⟨m, hl, m', hids, hr⟩ := shows_enclosed.1 hs
  exact .symbol hl (.parse trivial (reads_parameters hids hr))

theorem reads_functionBody (h : ∀ s ∈ ss, s.Rereads)
    (hs : c.Shows (Word.braced (Stmt.listWords ss)) d) :
    Reads (Grammar.functionBody Production.parse) c d fun ss' =>
      Stmt.relocates Range.forget ss' = Stmt.relocates Range.forget ss := by
  obtain ⟨m, hl, m', hss, hr⟩ := shows_enclosed.1 hs
  exact .symbol hl (.parse trivial (reads_statements h hss hr))

theorem functionExpr {name : Option Identifier} (h : ∀ s ∈ ss, s.Rereads) :
    Expr.Rereads (.function range name ids ss) := by
  refine .of_primary fun c d hs => ?_
  simp only [Expr.words, shows_cons, shows_append] at hs
  obtain ⟨m₁, hf, m₂, hn, m₃, hp, hb⟩ := hs
  refine ⟨by rw [hf.current]; rfl, .peek ?_⟩
  simp only [hf.current, Word.kind]
  refine .bump hf (.isAt (.ite_bind (m := m₂) (P := fun name' =>
    name'.map (·.relocate Range.forget) = name.map (·.relocate Range.forget))
    (fun hk => ?_) (fun hk => ?_) fun name' hname => ?_))
  · cases name with
    | none =>
      obtain rfl := shows_nil.1 hn
      rw [Cursor.Shows.current_enclosed hp] at hk
      cases hk
    | some id =>
      obtain ⟨m, hw, rfl⟩ := hn
      exact .map (.identifier hw) fun id' hid => congrArg some (Identifier.relocate_forget_eq hid)
  · cases name with
    | none =>
      obtain rfl := shows_nil.1 hn
      exact .pure rfl
    | some id =>
      obtain ⟨m, hw, rfl⟩ := hn
      exact absurd (beq_iff_eq.2 hw.current) hk
  · refine .bind (reads_parameterList hp) fun ids' hids => ?_
    refine .bind (reads_functionBody h hb) fun ss' hss => .rangeFrom fun _ => .pure ?_
    simp only [Expr.unplaced, Expr.relocate, Range.forget, hname, hids, hss]

end Functions

section Parts

variable {o : Option Expr}

/-- The test of a condition stands in two pairs of parentheses, one of them its own. -/
theorem reads_test (h : e.Rereads)
    (hs : c.Shows (Word.parenthesized (Word.parenthesized e.words)) d) :
    Reads (Grammar.parenthesized Production.parse) c d fun e' => e'.unplaced = e.unplaced := by
  obtain ⟨m, hl, m', hse, hr⟩ := shows_enclosed.1 hs
  have hstop : m'.current.kind.Stops false := by
    rw [hr.current]
    exact TokenKind.stops_rightParen
  refine .symbol hl (.bind (.parse trivial ?_) fun e' he => .symbol hr (.pure he))
  exact h.reads_expression hse hstop (by rw [hr.current]; rintro ⟨⟩)

theorem reads_value (h : e.Rereads) (hs : c.Shows (Word.parenthesized e.words) d)
    (hr : d.current.kind = .symbol .semicolon ∨ d.current.kind = .symbol .rightParen ∨
      d.current.kind = .symbol .colon) :
    Reads (Grammar.expression Production.parse false) c d fun e' => e'.unplaced = e.unplaced := by
  rcases hr with hr | hr | hr
  · exact h.reads_expression hs (hr ▸ TokenKind.stops_semicolon) (by rw [hr]; rintro ⟨⟩)
  · exact h.reads_expression hs (hr ▸ TokenKind.stops_rightParen) (by rw [hr]; rintro ⟨⟩)
  · exact h.reads_expression hs (hr ▸ TokenKind.stops_colon) (by rw [hr]; rintro ⟨⟩)

theorem reads_initializer (h : ∀ e ∈ o, e.Rereads) (hs : c.Shows (Expr.initializerWords o) d)
    (hd : d.current.kind.Stops noIn) :
    Reads (TokenReader.eat (.symbol .assign) >>= fun eaten =>
      if eaten then some <$> Production.parse (.assignment noIn) else pure none) c d fun o' =>
        Expr.optionRelocate Range.forget o' = Expr.optionRelocate Range.forget o := by
  cases o with
  | none =>
    obtain rfl := shows_nil.1 hs
    refine .eat_false (fun hk => ?_) (.pure rfl)
    have ha := hd.assign
    rw [hk] at ha
    cases ha
  | some e =>
    obtain ⟨m, hw, hse⟩ := hs
    refine .eat_true hw rfl (.map (.parse trivial ((h e rfl).reads_assignment hse hd)) ?_)
    exact fun e' he => congrArg some he

/-- A token that neither an expression nor a list goes on with. -/
structure EndsList (noIn : Bool) (kind : TokenKind) : Prop where
  stops : kind.Stops noIn
  ne_comma : kind ≠ .symbol .comma

theorem reads_declarators {ds : List Declarator} (hds : ds ≠ [])
    (h : ∀ declarator ∈ ds, ∀ e ∈ declarator.init, e.Rereads)
    (hs : c.Shows (Declarator.words ds) d) (hd : EndsList noIn d.current.kind) :
    Reads (Grammar.declarators Production.parse noIn) c d fun ds' =>
      Declarator.relocates Range.forget ds' = Declarator.relocates Range.forget ds := by
  induction ds generalizing c with
  | nil => exact absurd rfl hds
  | cons declarator ds ih =>
    obtain ⟨range, id, init⟩ := declarator
    obtain ⟨hi, hrest⟩ := List.forall_mem_cons.1 h
    obtain ⟨m, hw, hs⟩ := hs
    obtain ⟨m', hsi, hs⟩ := shows_append.1 hs
    cases ds with
    | nil =>
      obtain rfl := shows_nil.1 hs
      refine .bind (.identifier hw) fun id' hid => ?_
      refine .bind_ite (reads_initializer hi hsi hd.stops) fun init' hinit => .rangeFrom fun _ => ?_
      refine .eat_false hd.ne_comma (.pure ?_)
      simp only [Declarator.relocates, Range.forget, Identifier.relocate_forget_eq hid, hinit]
    | cons next ds =>
      obtain ⟨range', id', init'⟩ := next
      obtain ⟨m'', hc, hs⟩ := hs
      have hstop : m'.current.kind.Stops noIn := by
        rw [hc.current]
        exact TokenKind.stops_comma
      refine .bind (.identifier hw) fun id' hid => ?_
      refine .bind_ite (reads_initializer hi hsi hstop) fun init' hinit => .rangeFrom fun _ => ?_
      have hmore := ih (List.cons_ne_nil _ _) hrest hs
      refine .eat_true hc rfl (.bind (.parse trivial hmore) fun others ho => .pure ?_)
      simp only [Declarator.relocates, Range.forget, Identifier.relocate_forget_eq hid, hinit, ho]

theorem reads_block {b : Block} (h : ∀ s ∈ b.body, s.Rereads) (hs : c.Shows b.words d) :
    Reads (Grammar.block Production.parse) c d fun b' =>
      b'.relocate Range.forget = b.relocate Range.forget := by
  obtain ⟨range, ss⟩ := b
  obtain ⟨m, hl, m', hss, hr⟩ := shows_enclosed.1 hs
  apply Reads.symbol hl
  refine .bind (.parse trivial (reads_statements h hss hr)) fun ss' hss' => ?_
  exact .rangeFrom fun _ => .pure (congrArg (Block.mk ⟨0, 0⟩) hss')

end Parts

end Stmt.Rereads

end FlowLint
