import FlowLint.Proofs.Grammar.Written
import FlowLint.Proofs.Tree.Relocation

namespace FlowLint
set_option autoImplicit true

open TokenReader (Reads)
open Cursor (shows_append shows_cons shows_nil shows_enclosed)

namespace TokenKind

def isSuffix : TokenKind → Bool
  | .symbol .leftParen | .symbol .dot | .symbol .leftBracket => true
  | _ => false

def isPrefix (kind : TokenKind) : Bool :=
  kind == .keyword .new || kind.unaryOp?.isSome || kind.updateOp?.isSome

/-- No token that an expression goes on with, a comma apart. -/
structure Stops (noIn : Bool) (kind : TokenKind) : Prop where
  suffix : kind.isSuffix = false
  update : kind.updateOp? = none
  binary : kind.binaryOp? noIn = none
  question : kind ≠ .symbol .question
  assign : kind.assignOp? = none

theorem of_isPrefix_eq_false {kind : TokenKind} (h : kind.isPrefix = false) :
    kind ≠ .keyword .new ∧ kind.unaryOp? = none ∧ kind.updateOp? = none := by
  simp only [isPrefix, Bool.or_eq_false_iff, beq_eq_false_iff_ne, Option.isSome_eq_false_iff,
    Option.isNone_iff_eq_none] at h
  exact ⟨h.1.1, h.1.2, h.2⟩

theorem stops_rightParen : Stops noIn (.symbol .rightParen) :=
  ⟨rfl, rfl, rfl, nofun, rfl⟩

theorem stops_rightBracket : Stops noIn (.symbol .rightBracket) :=
  ⟨rfl, rfl, rfl, nofun, rfl⟩

theorem stops_comma : Stops noIn (.symbol .comma) :=
  ⟨rfl, rfl, rfl, nofun, rfl⟩

theorem stops_colon : Stops noIn (.symbol .colon) :=
  ⟨rfl, rfl, rfl, nofun, rfl⟩

theorem stops_semicolon : Stops noIn (.symbol .semicolon) :=
  ⟨rfl, rfl, rfl, nofun, rfl⟩

end TokenKind

theorem UnaryOp.unaryOp?_word (op : UnaryOp) : op.word.kind.unaryOp? = some op := by
  cases op <;> rfl

theorem UpdateOp.updateOp?_word (op : UpdateOp) : op.word.kind.updateOp? = some op := by
  cases op <;> rfl

theorem BinaryOp.binaryOp?_word (op : BinaryOp) : op.word.kind.binaryOp? false = some op := by
  cases op <;> rfl

theorem TokenKind.not_continues_of_assignOp? {kind : TokenKind} (h : kind.assignOp? = some op) :
    kind.isSuffix = false ∧ kind.updateOp? = none ∧ kind.binaryOp? false = none ∧
      kind ≠ .symbol .question := by
  unfold assignOp? at h
  split at h
  · exact ⟨rfl, rfl, rfl, nofun⟩
  · exact ⟨rfl, rfl, rfl, nofun⟩
  · exact ⟨rfl, rfl, rfl, nofun⟩
  · exact ⟨rfl, rfl, rfl, nofun⟩
  · exact ⟨rfl, rfl, rfl, nofun⟩
  · exact ⟨rfl, rfl, rfl, nofun⟩
  · cases h

theorem Expr.isAssignable_unplaced (e : Expr) : e.unplaced.isAssignable = e.isAssignable := by
  cases e <;> rfl

theorem Word.text_property (text : String) : (Word.property text).text = text := by
  unfold Word.property
  split
  · next hk => exact String.toList_inj.1 (Keyword.text_of_ofWord? hk)
  · rfl

theorem Identifier.relocate_forget_eq {id id' : Identifier} (h : id'.name = id.name) :
    id'.relocate Range.forget = id.relocate Range.forget := by
  simp [relocate, Range.forget, h]

namespace Grammar

variable {c d : Cursor} {P : Expr → Prop} {target : Expr}

theorem reads_members_stop (hc : c.current.kind = .symbol .leftParen) (h : P target) :
    Reads (members Production.parse target) c c P := by
  refine .peek ?_
  simp only [hc]
  exact .pure h

theorem reads_suffixes_stop (hd : c.current.kind.isSuffix = false) (h : P target) :
    Reads (suffixes Production.parse target) c c P := by
  refine .peek ?_
  split
  · next hk => rw [hk] at hd; cases hd
  · next hk => rw [hk] at hd; cases hd
  · next hk => rw [hk] at hd; cases hd
  · exact .pure h

theorem reads_suffixes (h : Reads (memberSuffix Production.parse target) c d P)
    (hc : c.current.kind = .symbol .dot ∨ c.current.kind = .symbol .leftBracket)
    (hd : d.current.kind.isSuffix = false) :
    Reads (suffixes Production.parse target) c d P := by
  have hmore : Reads (memberSuffix Production.parse target >>= fun target =>
      Production.parse (.suffixes target)) c d P :=
    .bind h fun member hm => .parse trivial (reads_suffixes_stop hd hm)
  refine .peek ?_
  rcases hc with hk | hk
  · simp only [hk]
    exact hmore
  · simp only [hk]
    exact hmore

theorem reads_call (h : Reads (primary Production.parse) c d P)
    (hc : c.current.kind ≠ .keyword .new) (hd : d.current.kind.isSuffix = false) :
    Reads (call Production.parse) c d P :=
  .isAt_false hc (.ite_neg Bool.false_ne_true (.bind h fun _ he => reads_suffixes_stop hd he))

theorem reads_postfixUpdate (h : Reads (call Production.parse) c d P)
    (hd : d.current.kind.updateOp? = none) : Reads (postfixUpdate Production.parse) c d P := by
  refine .bind h fun target ht => .peek ?_
  rw [hd]
  exact .pure ht

theorem reads_unary (h : Reads (postfixUpdate Production.parse) c d P)
    (hu : c.current.kind.unaryOp? = none) (hc : c.current.kind.updateOp? = none) :
    Reads (unary Production.parse) c d P := by
  refine .peek ?_
  simp only [hu, hc]
  exact h

theorem reads_binaryRest_stop (hd : c.current.kind.binaryOp? noIn = none) (h : P target) :
    Reads (binaryRest Production.parse least noIn target) c c P := by
  refine .peek ?_
  rw [hd]
  exact .pure h

theorem reads_binary (h : Reads (unary Production.parse) c d P)
    (hd : d.current.kind.binaryOp? noIn = none) :
    Reads (binary Production.parse least noIn) c d P :=
  .bind h fun _ he => reads_binaryRest_stop hd he

theorem reads_conditional (h : Reads (binary Production.parse 0 noIn) c d P)
    (hd : d.current.kind ≠ .symbol .question) : Reads (conditional Production.parse noIn) c d P :=
  .bind h fun _ he => .eat_false hd (.pure he)

theorem reads_assignment (h : Reads (conditional Production.parse noIn) c d P)
    (hd : d.current.kind.assignOp? = none) : Reads (assignment Production.parse noIn) c d P := by
  refine .bind h fun target ht => .peek ?_
  rw [hd]
  exact .pure ht

theorem reads_expression (h : Reads (assignment Production.parse noIn) c d P)
    (hd : d.current.kind ≠ .symbol .comma) : Reads (expression Production.parse noIn) c d P :=
  .bind h fun _ he => .isAt_false hd (.ite_neg Bool.false_ne_true (.pure he))

end Grammar

/-- Up to its places, the expression is read again where it is written before a closing
parenthesis. -/
def Expr.Rereads (e : Expr) : Prop :=
  ∀ c d : Cursor, c.Shows e.words d → d.current.kind = .symbol .rightParen →
    Reads (Grammar.expression Production.parse false) c d fun e' => e'.unplaced = e.unplaced

namespace Expr.Rereads

variable {c d m : Cursor} {e l r : Expr} {es : List Expr} {close : Symbol}

section Operands

theorem reads_parenthesized (h : e.Rereads) (hs : c.Shows (Word.parenthesized e.words) d) :
    Reads (Grammar.parenthesized Production.parse) c d fun e' => e'.unplaced = e.unplaced := by
  obtain ⟨m, hl, m', he, hr⟩ := shows_enclosed.1 hs
  refine .symbol hl (.bind (.parse trivial (h m m' he hr.current)) fun e' he' => ?_)
  exact .symbol hr (.pure he')

theorem current (hs : c.Shows (Word.parenthesized e.words) d) :
    c.current.kind = .symbol .leftParen :=
  Cursor.Shows.current_enclosed hs

theorem reads_primary (h : e.Rereads) (hs : c.Shows (Word.parenthesized e.words) d) :
    Reads (Grammar.primary Production.parse) c d fun e' => e'.unplaced = e.unplaced := by
  refine .peek ?_
  simp only [current hs]
  exact h.reads_parenthesized hs

theorem reads_call (h : e.Rereads) (hs : c.Shows (Word.parenthesized e.words) d)
    (hd : d.current.kind.isSuffix = false) :
    Reads (Grammar.call Production.parse) c d fun e' => e'.unplaced = e.unplaced :=
  Grammar.reads_call (h.reads_primary hs) (by rw [current hs]; rintro ⟨⟩) hd

theorem reads_unary (h : e.Rereads) (hs : c.Shows (Word.parenthesized e.words) d)
    (hd : d.current.kind.isSuffix = false) (hu : d.current.kind.updateOp? = none) :
    Reads (Grammar.unary Production.parse) c d fun e' => e'.unplaced = e.unplaced :=
  Grammar.reads_unary (Grammar.reads_postfixUpdate (h.reads_call hs hd) hu) (by rw [current hs]; rfl)
    (by rw [current hs]; rfl)

theorem reads_binary (h : e.Rereads) (hs : c.Shows (Word.parenthesized e.words) d)
    (hd : d.current.kind.Stops noIn) :
    Reads (Grammar.binary Production.parse least noIn) c d fun e' => e'.unplaced = e.unplaced :=
  Grammar.reads_binary (h.reads_unary hs hd.suffix hd.update) hd.binary

theorem reads_assignment (h : e.Rereads) (hs : c.Shows (Word.parenthesized e.words) d)
    (hd : d.current.kind.Stops noIn) :
    Reads (Grammar.assignment Production.parse noIn) c d fun e' => e'.unplaced = e.unplaced :=
  Grammar.reads_assignment (Grammar.reads_conditional (h.reads_binary hs hd) hd.question) hd.assign

theorem reads_expression (h : e.Rereads) (hs : c.Shows (Word.parenthesized e.words) d)
    (hd : d.current.kind.Stops noIn) (hn : d.current.kind ≠ .symbol .comma) :
    Reads (Grammar.expression Production.parse noIn) c d fun e' => e'.unplaced = e.unplaced :=
  Grammar.reads_expression (h.reads_assignment hs hd) hn

end Operands

variable {range : Range} {id : Identifier} {op : UnaryOp}

theorem of_assignment
    (h : ∀ c d : Cursor, c.Shows e.words d → d.current.kind.Stops false →
      Reads (Grammar.assignment Production.parse false) c d fun e' => e'.unplaced = e.unplaced) :
    e.Rereads := by
  intro c d hs hd
  refine Grammar.reads_expression (h c d hs ?_) (by rw [hd]; rintro ⟨⟩)
  rw [hd]
  exact TokenKind.stops_rightParen

theorem of_binary
    (h : ∀ c d : Cursor, c.Shows e.words d → d.current.kind.Stops false →
      Reads (Grammar.binary Production.parse 0 false) c d fun e' => e'.unplaced = e.unplaced) :
    e.Rereads :=
  of_assignment fun c d hs hd =>
    Grammar.reads_assignment (Grammar.reads_conditional (h c d hs hd) hd.question) hd.assign

theorem of_unary
    (h : ∀ c d : Cursor, c.Shows e.words d → d.current.kind.Stops false →
      Reads (Grammar.unary Production.parse) c d fun e' => e'.unplaced = e.unplaced) :
    e.Rereads :=
  of_binary fun c d hs hd => Grammar.reads_binary (h c d hs hd) hd.binary

/-- An expression that starts like an operand is read again if it is read as one. -/
theorem of_call
    (h : ∀ c d : Cursor, c.Shows e.words d → d.current.kind.Stops false →
      (c.current.kind.unaryOp? = none ∧ c.current.kind.updateOp? = none) ∧
        Reads (Grammar.call Production.parse) c d fun e' => e'.unplaced = e.unplaced) :
    e.Rereads := by
  refine of_unary fun c d hs hd => ?_
  obtain ⟨⟨hu, hc⟩, h⟩ := h c d hs hd
  exact Grammar.reads_unary (Grammar.reads_postfixUpdate h hd.update) hu hc

theorem of_primary
    (h : ∀ c d : Cursor, c.Shows e.words d → c.current.kind.isPrefix = false ∧
      Reads (Grammar.primary Production.parse) c d fun e' => e'.unplaced = e.unplaced) :
    e.Rereads := by
  refine of_call fun c d hs hd => ?_
  obtain ⟨hc, h⟩ := h c d hs
  obtain ⟨hn, hu⟩ := TokenKind.of_isPrefix_eq_false hc
  exact ⟨hu, Grammar.reads_call h hn hd.suffix⟩

theorem of_word {word : Word} (he : e.words = [word]) (hp : word.kind.isPrefix = false)
    (h : ∀ c d : Cursor, c.PassesWord word d →
      Reads (Grammar.primary Production.parse) c d fun e' => e'.unplaced = e.unplaced) :
    e.Rereads := by
  apply of_primary
  intro c d hs
  rw [he] at hs
  obtain ⟨m, hw, rfl⟩ := hs
  exact ⟨by rw [hw.current, hp], h c m hw⟩

theorem name : Rereads (.name range text) := by
  apply of_word rfl rfl
  intro c d hw
  apply Reads.peek
  simp only [hw.current, Word.kind]
  refine .bump hw (.pure ?_)
  rw [hw.text_current]
  rfl

theorem number (hv : NumberLiteral.valueOf? text.toList = some value) :
    Rereads (.number range text value) := by
  apply of_word rfl rfl
  intro c d hw
  apply Reads.peek
  simp only [hw.current, Word.kind]
  apply Reads.bump hw
  simp only [hw.text_current, Word.text, hv]
  exact .pure rfl

theorem string : Rereads (.string range text (String.ofList (Quoted.value text.toList))) := by
  apply of_word rfl rfl
  intro c d hw
  apply Reads.peek
  simp only [hw.current, Word.kind]
  refine .bump hw (.pure ?_)
  rw [hw.text_current]
  rfl

theorem boolean : Rereads (.boolean range value) := by
  cases value with
  | true =>
    apply of_word rfl rfl
    intro c d hw
    apply Reads.peek
    simp only [hw.current]
    exact .bump hw (.pure rfl)
  | false =>
    apply of_word rfl rfl
    intro c d hw
    apply Reads.peek
    simp only [hw.current]
    exact .bump hw (.pure rfl)

theorem null : Rereads (.null range) := by
  apply of_word rfl rfl
  intro c d hw
  apply Reads.peek
  simp only [hw.current]
  exact .bump hw (.pure rfl)

section Lists

theorem stops_of_shows_restWords (hs : c.Shows (Expr.restWords es) d)
    (hd : d.current.kind.Stops noIn) : c.current.kind.Stops noIn := by
  cases es with
  | nil => exact shows_nil.1 hs ▸ hd
  | cons e es =>
    obtain ⟨m, hw, -⟩ := hs
    rw [hw.current]
    exact TokenKind.stops_comma

theorem reads_commaParts (h : ∀ e ∈ es, e.Rereads) (hs : c.Shows (Expr.restWords es) d)
    (hd : d.current.kind.Stops noIn) (hn : d.current.kind ≠ .symbol .comma) :
    Reads (Grammar.commaParts Production.parse noIn) c d fun es' =>
      Expr.relocates Range.forget es' = Expr.relocates Range.forget es := by
  induction es generalizing c with
  | nil =>
    obtain rfl := shows_nil.1 hs
    exact .eat_false hn (.pure rfl)
  | cons e es ih =>
    obtain ⟨he, hes⟩ := List.forall_mem_cons.1 h
    simp only [Expr.restWords, shows_cons, shows_append] at hs
    obtain ⟨m, hw, m', hse, hrest⟩ := hs
    refine .eat_true hw rfl (.bind (he.reads_assignment hse (stops_of_shows_restWords hrest hd))
      fun part hp => ?_)
    refine .bind (.parse trivial (ih hes hrest)) fun parts hps => .pure ?_
    exact congrArg₂ List.cons hp hps

theorem reads_elements (h : ∀ e ∈ es, e.Rereads) (hs : c.Shows (Expr.listWords es) m)
    (hr : m.PassesWord (.symbol close) d) (hc : close = .rightParen ∨ close = .rightBracket) :
    Reads (Grammar.elements Production.parse close) c d fun es' =>
      Expr.relocates Range.forget es' = Expr.relocates Range.forget es := by
  induction es generalizing c with
  | nil =>
    obtain rfl := shows_nil.1 hs
    exact .eat_true hr rfl (.pure rfl)
  | cons e es ih =>
    obtain ⟨he, hes⟩ := List.forall_mem_cons.1 h
    simp only [Expr.listWords, shows_append] at hs
    obtain ⟨m₁, hse, hrest⟩ := hs
    have hstop : m.current.kind.Stops false := by
      rw [hr.current]
      rcases hc with rfl | rfl
      · exact TokenKind.stops_rightParen
      · exact TokenKind.stops_rightBracket
    refine .eat_false (by rw [current hse]; rcases hc with rfl | rfl <;> rintro ⟨⟩) ?_
    refine .bind (he.reads_assignment hse (stops_of_shows_restWords hrest hstop)) fun element hp => ?_
    have hmore {b : Cursor} (hb : b.Shows (Expr.listWords es) m) :
        Reads (Production.parse (.elements close) >>= fun elements => pure (element :: elements)) b d
          fun es' => Expr.relocates Range.forget es' = Expr.relocates Range.forget (e :: es) :=
      .bind (.parse trivial (ih hes hb)) fun elements hes' => .pure (congrArg₂ List.cons hp hes')
    cases es with
    | nil =>
      obtain rfl := shows_nil.1 hrest
      exact .isAt_true hr.current (.ite_neg Bool.false_ne_true (hmore rfl))
    | cons e' es =>
      obtain ⟨m₂, hw, hrest⟩ := hrest
      refine .isAt_false ?_ (.ite_pos rfl (.symbol hw (hmore hrest)))
      rw [hw.current]
      rcases hc with rfl | rfl <;> rintro ⟨⟩

theorem reads_argumentList (h : ∀ e ∈ es, e.Rereads)
    (hs : c.Shows (Word.parenthesized (Expr.listWords es)) d) :
    Reads (Grammar.argumentList Production.parse) c d fun es' =>
      Expr.relocates Range.forget es' = Expr.relocates Range.forget es := by
  obtain ⟨m, hl, m', hes, hr⟩ := shows_enclosed.1 hs
  exact .symbol hl (.parse trivial (reads_elements h hes hr (.inl rfl)))

end Lists

theorem array (h : ∀ e ∈ es, e.Rereads) : Rereads (.array range es) := by
  refine of_primary fun c d hs => ?_
  obtain ⟨m, hl, m', hes, hr⟩ := shows_enclosed.1 hs
  refine ⟨by rw [hl.current]; rfl, .peek ?_⟩
  simp only [hl.current, Word.kind]
  refine .bump hl (.bind (.parse trivial (reads_elements h hes hr (.inr rfl))) fun es' he => ?_)
  exact .rangeFrom fun _ => .pure (congrArg (Expr.array ⟨0, 0⟩) he)

theorem call (h : e.Rereads) (ha : ∀ e ∈ es, e.Rereads) : Rereads (.call range e es) := by
  refine of_call fun c d hs hd => ?_
  simp only [Expr.words, shows_append] at hs
  obtain ⟨m, hse, hsa⟩ := hs
  refine ⟨by rw [current hse]; exact ⟨rfl, rfl⟩, ?_⟩
  refine .isAt_false (by rw [current hse]; rintro ⟨⟩) (.ite_neg Bool.false_ne_true ?_)
  refine .bind (h.reads_primary hse) ?_
  refine fun callee hc => .peek ?_
  have hk : m.current.kind = .symbol .leftParen := Cursor.Shows.current_enclosed hsa
  simp only [hk]
  refine .bind (reads_argumentList ha hsa) fun arguments hargs => .rangeFrom fun range => ?_
  refine .parse ?_ (Grammar.reads_suffixes_stop hd.suffix ?_)
  · exact trivial
  · exact congrArg₂ (Expr.call ⟨0, 0⟩) hc hargs

theorem new (h : e.Rereads) (ha : ∀ e ∈ es, e.Rereads) : Rereads (.new range e es) := by
  refine of_call fun c d hs hd => ?_
  simp only [Expr.words, shows_cons, shows_append] at hs
  obtain ⟨m, hn, m', hse, hsa⟩ := hs
  have hk : m'.current.kind = .symbol .leftParen := Cursor.Shows.current_enclosed hsa
  refine ⟨by rw [hn.current]; exact ⟨rfl, rfl⟩, .isAt_true hn.current (.ite_pos rfl ?_)⟩
  refine .bind (P := fun e' => e'.unplaced = (Expr.new range e es).unplaced) ?_ fun target ht =>
    Grammar.reads_suffixes_stop hd.suffix ht
  refine .bump hn (.isAt_false (by rw [current hse]; rintro ⟨⟩) (.ite_neg Bool.false_ne_true ?_))
  refine .bind (h.reads_primary hse) fun callee hc => ?_
  refine .bind (Grammar.reads_members_stop (P := fun e' => e'.unplaced = e.unplaced) hk hc) ?_
  intro callee hc
  refine .isAt_true hk (.ite_pos rfl (.bind (reads_argumentList ha hsa) fun arguments hargs => ?_))
  exact .rangeFrom fun _ => .pure (congrArg₂ (Expr.new ⟨0, 0⟩) hc hargs)

theorem of_memberSuffix {e' : Expr} {tail : List Word} (h : e.Rereads)
    (hw : e'.words = Word.parenthesized e.words ++ tail)
    (hm : ∀ (c d : Cursor) (target : Expr), c.Shows tail d → target.unplaced = e.unplaced →
      (c.current.kind = .symbol .dot ∨ c.current.kind = .symbol .leftBracket) ∧
        Reads (Grammar.memberSuffix Production.parse target) c d fun e'' =>
          e''.unplaced = e'.unplaced) :
    e'.Rereads := by
  refine of_call fun c d hs hd => ?_
  rw [hw, shows_append] at hs
  obtain ⟨m, hse, hst⟩ := hs
  refine ⟨by rw [current hse]; exact ⟨rfl, rfl⟩, ?_⟩
  refine .isAt_false (by rw [current hse]; rintro ⟨⟩) (.ite_neg Bool.false_ne_true ?_)
  refine .bind (h.reads_primary hse) ?_
  intro target ht
  obtain ⟨hk, hr⟩ := hm m d target hst ht
  exact Grammar.reads_suffixes hr hk hd.suffix

theorem reads_propertyName (hs : id.name.toList.head?.any Character.isNameStart = true)
    (hw : c.PassesWord (Word.property id.name) d) :
    Reads Grammar.propertyName c d fun id' => id'.name = id.name := by
  have ht : c.current.text = id.name := hw.text_current.trans (Word.text_property id.name)
  exact .bump hw (.ite_pos (by rwa [ht]) (.pure ht))

theorem member (h : e.Rereads) (hs : id.name.toList.head?.any Character.isNameStart = true) :
    Rereads (.member range e id) := by
  refine of_memberSuffix h rfl fun c d target hst ht => ?_
  simp only [shows_cons, shows_nil] at hst
  obtain ⟨m, hdot, m', hid, rfl⟩ := hst
  refine ⟨.inl hdot.current, .eat_true hdot rfl (.bind (reads_propertyName hs hid) ?_)⟩
  refine fun property hp => .rangeFrom fun _ => .pure ?_
  exact congrArg₂ (Expr.member ⟨0, 0⟩) ht (Identifier.relocate_forget_eq hp)

theorem subscript (h : e.Rereads) (hi : r.Rereads) : Rereads (.subscript range e r) := by
  refine of_memberSuffix h rfl fun c d target hst ht => ?_
  obtain ⟨m, hl, m', hsi, hr⟩ := shows_enclosed.1 hst
  refine ⟨.inr hl.current, .eat_false (by rw [hl.current]; rintro ⟨⟩) (.symbol hl ?_)⟩
  have hstop : m'.current.kind.Stops false := by
    rw [hr.current]
    exact TokenKind.stops_rightBracket
  refine .bind (.parse trivial (hi.reads_expression hsi hstop (by rw [hr.current]; rintro ⟨⟩))) ?_
  refine fun index hindex => .symbol hr (.rangeFrom fun _ => .pure ?_)
  exact congrArg₂ (Expr.subscript ⟨0, 0⟩) ht hindex

theorem unary (h : e.Rereads) : Rereads (.unary range op e) := by
  refine of_unary fun c d hs hd => .peek ?_
  obtain ⟨m, ho, hse⟩ := shows_cons.1 hs
  simp only [ho.current, UnaryOp.unaryOp?_word]
  refine .bump ho (.bind (.parse trivial (h.reads_unary hse hd.suffix hd.update)) ?_)
  exact fun operand he => .pure (congrArg (Expr.unary ⟨0, 0⟩ op) he)

theorem before {op : UpdateOp} (h : e.Rereads) : Rereads (.update range op .before e) := by
  refine of_unary fun c d hs hd => .peek ?_
  obtain ⟨m, ho, hse⟩ := shows_cons.1 hs
  have hu : op.word.kind.unaryOp? = none := by cases op <;> rfl
  simp only [ho.current, hu, UpdateOp.updateOp?_word]
  refine .bump ho (.bind (.parse trivial (h.reads_unary hse hd.suffix hd.update)) ?_)
  exact fun target he => .pure (congrArg (Expr.update ⟨0, 0⟩ op .before) he)

theorem after {op : UpdateOp} (h : e.Rereads) : Rereads (.update range op .after e) := by
  refine of_unary fun c d hs hd => ?_
  simp only [Expr.words, shows_append, shows_cons, shows_nil] at hs
  obtain ⟨m, hse, m', ho, rfl⟩ := hs
  have hsuffix : op.word.kind.isSuffix = false := by cases op <;> rfl
  refine Grammar.reads_unary ?_ (by rw [current hse]; rfl) (by rw [current hse]; rfl)
  refine .bind (h.reads_call hse (by rw [ho.current, hsuffix])) fun target he => .peek ?_
  simp only [ho.current, UpdateOp.updateOp?_word]
  refine .ite_neg (by rw [ho.newlineBefore]; rintro ⟨⟩) (.bump ho (.pure ?_))
  exact congrArg (Expr.update ⟨0, 0⟩ op .after) he

theorem binary {op : BinaryOp} (hl : l.Rereads) (hr : r.Rereads) :
    Rereads (.binary range op l r) := by
  refine of_binary fun c d hs hd => ?_
  simp only [Expr.words, shows_append, shows_cons] at hs
  obtain ⟨m, hsl, m', ho, hsr⟩ := hs
  have hsuffix : op.word.kind.isSuffix = false := by cases op <;> rfl
  have hupdate : op.word.kind.updateOp? = none := by cases op <;> rfl
  refine .bind (hl.reads_unary hsl (by rw [ho.current, hsuffix]) (by rw [ho.current, hupdate]))
    fun left hleft => .peek ?_
  simp only [ho.current, BinaryOp.binaryOp?_word]
  refine .ite_neg (Nat.not_lt_zero _) (.bump ho ?_)
  refine .bind (.parse trivial (hr.reads_binary hsr hd)) fun right hright => ?_
  refine .parse ?_ (Grammar.reads_binaryRest_stop hd.binary ?_)
  · exact trivial
  · exact congrArg₂ (Expr.binary ⟨0, 0⟩ op) hleft hright

theorem assign {op : Option BinaryOp} (ht : l.Rereads) (ha : l.isAssignable = true)
    (ho : (BinaryOp.assignWord op).kind.assignOp? = some op) (hv : r.Rereads) :
    Rereads (.assign range op l r) := by
  refine of_assignment fun c d hs hd => ?_
  simp only [Expr.words, shows_append, shows_cons] at hs
  obtain ⟨m, hst, m', hw, hsv⟩ := hs
  have hstop := TokenKind.not_continues_of_assignOp? (hw.current ▸ ho)
  refine .bind (Grammar.reads_conditional (Grammar.reads_binary
    (ht.reads_unary hst hstop.1 hstop.2.1) hstop.2.2.1) hstop.2.2.2) fun target htarget => .peek ?_
  simp only [hw.current, ho]
  have ha' : target.isAssignable = true := by
    rw [← Expr.isAssignable_unplaced, htarget, Expr.isAssignable_unplaced, ha]
  refine .ite_pos ha' (.bump hw (.bind (.parse trivial (hv.reads_assignment hsv hd)) ?_))
  exact fun value hvalue => .pure (congrArg₂ (Expr.assign ⟨0, 0⟩ op) htarget hvalue)

theorem conditional {t : Expr} (ht : t.Rereads) (hw : l.Rereads) (hf : r.Rereads) :
    Rereads (.conditional range t l r) := by
  refine of_assignment fun c d hs hd => Grammar.reads_assignment ?_ hd.assign
  simp only [Expr.words, shows_append, shows_cons] at hs
  obtain ⟨m₁, hst, m₂, hq, m₃, hsw, m₄, hc, hsf⟩ := hs
  have hbinary : Reads (Grammar.binary Production.parse 0 false) c m₁ fun e' =>
      e'.unplaced = t.unplaced :=
    Grammar.reads_binary (ht.reads_unary hst (by rw [hq.current]; rfl) (by rw [hq.current]; rfl))
      (by rw [hq.current]; rfl)
  refine .bind hbinary fun test htest => .eat_true hq rfl ?_
  refine .bind (.parse trivial
    (hw.reads_assignment hsw (by rw [hc.current]; exact TokenKind.stops_colon)))
    fun whenTrue htrue => .symbol hc ?_
  refine .bind (.parse trivial (hf.reads_assignment hsf hd)) fun whenFalse hfalse => .pure ?_
  change Expr.conditional ⟨0, 0⟩ test.unplaced whenTrue.unplaced whenFalse.unplaced = _
  rw [htest, htrue, hfalse]
  rfl

theorem sequence (hl : l.Rereads) (hr : r.Rereads) (h : ∀ e ∈ es, e.Rereads) :
    Rereads (.sequence range (l :: r :: es)) := by
  intro c d hs hd
  obtain ⟨m, hsl, hrest⟩ := shows_append.1 (show c.Shows (Word.parenthesized l.words ++ _) d from hs)
  have hcomma : m.current.kind = .symbol .comma := by
    obtain ⟨m', hw, -⟩ := hrest
    exact hw.current
  have hparts : ∀ e ∈ r :: es, e.Rereads := List.forall_mem_cons.2 ⟨hr, h⟩
  refine .bind (hl.reads_assignment hsl (hcomma ▸ TokenKind.stops_comma)) fun first hf => ?_
  refine .isAt_true hcomma (.ite_pos rfl ?_)
  refine .bind
    (reads_commaParts hparts hrest (hd ▸ TokenKind.stops_rightParen) (by rw [hd]; rintro ⟨⟩))
    fun parts hp => .rangeFrom fun _ => .pure ?_
  exact congrArg (Expr.sequence ⟨0, 0⟩) (congrArg₂ List.cons hf hp)

end Expr.Rereads

end FlowLint
