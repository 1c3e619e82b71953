import FlowLint.Proofs.Grammar.Ended

namespace FlowLint
set_option autoImplicit true

/-- Some tokens, but for opening parentheses in front, start at a byte. -/
inductive Token.StartAt : List Token → Nat → Prop
  | head {token : Token} {read : List Token} : StartAt (token :: read) token.range.start
  | paren {token : Token} {read : List Token} (hk : token.kind = .symbol .leftParen)
    (h : StartAt read start) : StartAt (token :: read) start

/-- Some tokens, but for closing parentheses behind, stop at a byte. -/
inductive Token.StopAt : List Token → Nat → Prop
  | last {token : Token} {read : List Token} : StopAt (read ++ [token]) token.range.stop
  | paren {token : Token} {read : List Token} (h : StopAt read stop)
    (hk : token.kind = .symbol .rightParen) : StopAt (read ++ [token]) stop

open Token (StartAt StopAt)

namespace Expr

/-- The first token of an expression is its own, and not that of an operand. -/
def beginsItself : Expr → Bool
  | call .. | member .. | subscript .. | update _ _ .after _ | binary .. | assign .. |
    conditional .. | sequence .. => false
  | _ => true

/-- The last token of an expression is its own, and not that of an operand. -/
def endsItself : Expr → Bool
  | unary .. | update _ _ .before _ | binary .. | assign .. | conditional .. => false
  | _ => true

/-- The range of an expression leaves out at most parentheses of some tokens, and none where the
expression has a token of its own. -/
structure Covers (expr : Expr) (read : List Token) : Prop where
  start : StartAt read expr.range.start
  stop : StopAt read expr.range.stop
  first : expr.beginsItself = true → ∀ token ∈ read.head?, expr.range.start = token.range.start
  last : expr.endsItself = true → ∀ token ∈ read.getLast?, expr.range.stop = token.range.stop

end Expr

namespace Cursor

variable {others read read' : List Token} {token last : Token} {c d : Cursor}

theorem Passes.startAt (h : c.Passes token d) : StartAt c.ahead token.range.start :=
  h.ahead ▸ .head

theorem PassesKind.startAt (h : c.PassesKind kind d) : StartAt c.ahead c.current.range.start := by
  obtain ⟨token, hp, -⟩ := h
  exact hp.current ▸ hp.startAt

theorem HasRead.unique (h : c.HasRead others last read) (h' : c.HasRead others last read') :
    read = read' :=
  List.append_cancel_right (h.split.symm.trans h'.split)

end Cursor

/-- The tokens in front of which an expression stands start where it does, and those that are read
behind it stop where it does, but for parentheses. -/
structure Expr.Margins (others : List Token) (last : Token) (c d : Cursor) (expr : Expr) : Prop where
  start : StartAt c.ahead expr.range.start
  stop : ∀ read, d.HasRead others last read → StopAt read expr.range.stop

def Phrase.Margins (others : List Token) (last : Token) (c d : Cursor) : Phrase → Prop
  | expr e | parenthesized e => c.Reached others last → e.Margins others last c d
  | _ => True

variable {others read : List Token} {last : Token} {c d : Cursor}

/-- Where an expression is read up to a cursor, its last token is the last one that was read. -/
theorem Stands.stopAt (h : Stands (.expr expr) c d) (hc : c.Reached others last)
    (hd : d.HasRead others last read) : StopAt read d.stop := by
  have hne : c.current.range.start < d.stop :=
    (h.lays.crosses hc.choose_spec.along).spans.nonempty
  obtain ⟨before, final, rfl, hstop⟩ := hd.exists_final (Nat.zero_lt_of_lt hne)
  exact hstop ▸ .last

theorem Stands.reached (h : Stands p c d) (hc : c.Reached others last) : d.Reached others last :=
  (h.settles hc).1

theorem Stands.margins (h : Stands p c d) : p.Margins others last c d := by
  have hs := h
  induction h with
  | parenthesized hl h hr ih =>
    intro hc
    obtain ⟨opening, hl, hopen⟩ := hl
    obtain ⟨closing, hr, hclose⟩ := hr
    have hinner := ih h (hl.settles hc).1
    refine ⟨hl.ahead ▸ .paren hopen hinner.start, fun read hd => ?_⟩
    obtain ⟨before, hm⟩ := h.reached (hl.settles hc).1
    rw [hd.unique (hm.passes hr)]
    exact .paren (hinner.stop before hm) hclose
  | parens h ih => exact ih h
  | name h hk | number h hk hv | string h hk | boolean h hk | null h hk =>
    exact fun hc => ⟨h.startAt, fun _ hd => h.stop ▸ hs.stopAt hc hd⟩
  | array hl h ih => exact fun hc => ⟨hl.startAt, fun _ => hs.stopAt hc⟩
  | call h hl ha ih iha => exact fun hc => ⟨(ih h hc).start, fun _ => hs.stopAt hc⟩
  | new hn h hl ha ih iha => exact fun hc => ⟨hn.startAt, fun _ => hs.stopAt hc⟩
  | bareNew hn h hl ih => exact fun hc => ⟨hn.startAt, fun _ => hs.stopAt hc⟩
  | member h hd hp hs' ih => exact fun hc => ⟨(ih h hc).start, fun _ => hs.stopAt hc⟩
  | subscript h hl hi hr ih ihi => exact fun hc => ⟨(ih h hc).start, fun _ => hs.stopAt hc⟩
  | unary ho hk h ih =>
    exact fun hc => ⟨ho.startAt, (ih h (ho.settles hc).1).stop⟩
  | before ho hk h ih =>
    exact fun hc => ⟨ho.startAt, (ih h (ho.settles hc).1).stop⟩
  | after h ho hk hn ih => exact fun hc => ⟨(ih h hc).start, fun _ hd => ho.stop ▸ hs.stopAt hc hd⟩
  | binary hl ho hk hr ihl ihr =>
    exact fun hc => ⟨(ihl hl hc).start, (ihr hr (ho.settles (hl.reached hc)).1).stop⟩
  | assign ht ha ho hk hv iht ihv =>
    exact fun hc => ⟨(iht ht hc).start, (ihv hv (ho.settles (ht.reached hc)).1).stop⟩
  | conditional ht hq hw hc hf iht ihw ihf =>
    intro hb
    have hreached := (hc.settles (hw.reached (hq.settles (ht.reached hb)).1)).1
    exact ⟨(iht ht hb).start, (ihf hf hreached).stop⟩
  | sequence h hc h' hp ih ih' ihp => exact fun hb => ⟨(ih h hb).start, fun _ => hs.stopAt hb⟩
  | functionExpr hk hn hl hp ho hb hr ih => exact fun hc => ⟨hk.startAt, fun _ => hs.stopAt hc⟩
  | _ => trivial

/-- Without parentheses around it, an expression that begins with a token of its own starts there. -/
theorem Stands.start_eq (h : Stands (.expr expr) c d) (hn : ¬ Stands (.parenthesized expr) c d)
    (hb : expr.beginsItself = true) : expr.range.start = c.current.range.start := by
  cases h with
  | parens h => exact absurd h hn
  | name h | number h | string h | boolean h | null h | unary h | before h =>
    exact congrArg (·.range.start) h.current.symm
  | array | new | bareNew | functionExpr => rfl
  | call | member | subscript | after | binary | assign | conditional | sequence => cases hb

/-- Without parentheses around it, an expression that ends with a token of its own stops there. -/
theorem Stands.stop_eq (h : Stands (.expr expr) c d) (hn : ¬ Stands (.parenthesized expr) c d)
    (he : expr.endsItself = true) : expr.range.stop = d.stop := by
  cases h with
  | parens h => exact absurd h hn
  | name h | number h | string h | boolean h | null h | after _ h => exact h.stop.symm
  | array | call | new | bareNew | member | subscript | sequence | functionExpr => rfl
  | unary | before | binary | assign | conditional => cases he

/-- An expression covers the tokens that it was read from, if there are no parentheses around them. -/
theorem Stands.covers (h : Stands (.expr expr) ⟨read, last, 0⟩ d)
    (hn : ¬ Stands (.parenthesized expr) ⟨read, last, 0⟩ d)
    (hc : Cursor.Over read last ⟨read, last, 0⟩) (hd : d.ahead = []) : expr.Covers read := by
  have hstart : Cursor.Reached read last ⟨read, last, 0⟩ := ⟨[], hc, rfl, rfl⟩
  obtain ⟨all, hall⟩ := h.reached hstart
  obtain rfl : read = all := by rw [hall.split, hd, List.append_nil]
  have hmargins : expr.Margins read last ⟨read, last, 0⟩ d := h.margins hstart
  refine ⟨hmargins.start, hmargins.stop _ hall, fun hb token hm => ?_, fun he token hm => ?_⟩
  · rw [h.start_eq hn hb, Cursor.current, List.headD_eq_head?_getD, hm]
    rfl
  · rw [h.stop_eq hn he, hall.stop_eq, hm]
    rfl

end FlowLint
