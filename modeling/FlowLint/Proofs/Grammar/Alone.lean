import FlowLint.Proofs.Grammar.Margin
import FlowLint.Proofs.Grammar.RepeatStatement

namespace FlowLint
set_option autoImplicit true

open TokenReader (Concludes Reads)

namespace TokenReader

variable {α β : Type} {x y : TokenReader α} {kind : TokenKind}

/-- A reader sees neither where the token in front of the current one stops, nor whether a line ends
between them. -/
def Overlooks (x : TokenReader α) : Prop :=
  ∀ (token : Token) (newline : Bool) (ahead : List Token) (endOfFile : Token) (stop stop' : Nat),
    x ⟨{ token with newlineBefore := newline } :: ahead, endOfFile, stop'⟩ =
      x ⟨token :: ahead, endOfFile, stop⟩

/-- What is done with a token does not depend on whether a line ends in front of it. -/
def Ignores (f : Token → TokenReader β) : Prop :=
  ∀ (token : Token) (newline : Bool), f { token with newlineBefore := newline } = f token

namespace Overlooks

protected theorem bind (h : Overlooks x) (f : α → TokenReader β) : Overlooks (x >>= f) := by
  intro token newline ahead endOfFile stop stop'
  change (x _ >>= fun (a, d) => f a d) = (x _ >>= fun (a, d) => f a d)
  rw [h token newline ahead endOfFile stop stop']

protected theorem ite {p : Prop} [Decidable p] (hx : Overlooks x) (hy : Overlooks y) :
    Overlooks (if p then x else y) := by
  split
  · exact hx
  · exact hy

protected theorem peek {f : Token → TokenReader β} (hf : Ignores f)
    (h : ∀ token, Overlooks (f token)) : Overlooks (peek >>= f) := by
  intro token newline ahead endOfFile stop stop'
  change f { token with newlineBefore := newline } _ = f token _
  rw [hf token newline]
  exact h token token newline ahead endOfFile stop stop'

protected theorem isAt {f : Bool → TokenReader β} (h : ∀ found, Overlooks (f found)) :
    Overlooks (isAt kind >>= f) :=
  .peek (f := fun token => f (token.kind == kind)) (fun _ _ => rfl) fun _ => h _

protected theorem bump {f : Token → TokenReader β} (hf : Ignores f) : Overlooks (bump >>= f) := by
  intro token newline ahead endOfFile stop stop'
  change f { token with newlineBefore := newline } _ = f token _
  rw [hf token newline]
  rfl

protected theorem unexpected (expected : Expected) :
    Overlooks (unexpected expected : TokenReader α) :=
  .peek (fun _ _ => rfl) fun _ _ _ _ _ _ _ => rfl

protected theorem symbol {s : Symbol} (x : TokenReader β) : Overlooks (symbol s >>= fun _ => x) := by
  have heq : (symbol s >>= fun _ => x) = (isAt (.symbol s) >>= fun found =>
      if found = true then bump >>= fun _ => x else unexpected (.symbol s)) := by
    funext c
    change ((if (c.current.kind == .symbol s) = true then bump else unexpected _) >>= fun _ => x) c =
      (if (c.current.kind == .symbol s) = true then _ else _ : TokenReader β) c
    split <;> rfl
  rw [heq]
  exact .isAt fun _ => .ite (.bump fun _ _ => rfl) (.unexpected _)

end Overlooks

end TokenReader

open TokenReader (Overlooks)

namespace Grammar

variable (g : Grammar)

theorem overlooks_primary : Overlooks (primary g) := by
  refine .peek (fun _ _ => rfl) fun token => ?_
  dsimp only
  split
  · exact .bump fun _ _ => rfl
  · exact .bump fun _ _ => rfl
  · exact .bump fun _ _ => rfl
  · exact .bump fun _ _ => rfl
  · exact .bump fun _ _ => rfl
  · exact .bump fun _ _ => rfl
  · exact .symbol _
  · exact .bump fun _ _ => rfl
  · exact .bump fun _ _ => rfl
  · exact .unexpected _

theorem overlooks_call : Overlooks (call g) :=
  .isAt fun _ => .ite (Overlooks.bind (.bump fun _ _ => rfl) _) ((overlooks_primary g).bind _)

theorem overlooks_unary : Overlooks (unary g) := by
  refine .peek (fun _ _ => rfl) fun token => ?_
  dsimp only
  split
  · exact .bump fun _ _ => rfl
  · split
    · exact .bump fun _ _ => rfl
    · exact (overlooks_call g).bind _

theorem overlooks_expression (noIn : Bool) : Overlooks (expression g noIn) :=
  -- An expression begins with an assignment, that with a conditional, and so on.
  (((((overlooks_unary g).bind _).bind _).bind _).bind _)

end Grammar

namespace TokenReader.Concludes

variable {read : List Token} {token last : Token} {expr : Expr}

theorem ne_nil (h : Concludes (Production.expression false).parse read start expr) : read ≠ [] := by
  rintro rfl
  let c : Cursor := ⟨[], ⟨.endOfFile, "", ⟨start, start⟩, false⟩, start⟩
  have hc : c.Closed := ⟨rfl, rfl, nofun⟩
  obtain ⟨-, expr, hread, -⟩ := h c hc rfl rfl hc
  obtain ⟨-, hs⟩ := Grammar.sound_upTo _ (.expression false) c hc trivial expr c hread
  obtain ⟨token, hm, -⟩ := (hs.lays.crosses ⟨nofun, Nat.le_refl _⟩ : c.Holds [] _ c).spans.start
  cases hm

/-- What is read from some tokens is read from them on any line and behind any token. -/
theorem relined (h : Concludes (Production.expression false).parse (token :: read) start expr)
    (newline : Bool) (start' : Nat) :
    Concludes (Production.expression false).parse ({ token with newlineBefore := newline } :: read)
      start' expr := by
  intro e he hs hk hc
  have hclosed : (e.behind (token :: read) start).Closed := by
    refine ⟨he.endOfFile, he.text, fun other hm => ?_⟩
    rcases List.mem_cons.1 hm with rfl | hm
    · exact hc.ahead { other with newlineBefore := newline } (List.mem_cons_self ..)
    · exact hc.ahead other (List.mem_cons_of_mem _ hm)
  have hstop : e.stop = Token.stopOf (token :: read) start := by
    rw [hs, Token.stopOf_cons, Token.stopOf_cons]
  obtain ⟨-, _, hread, rfl⟩ := h e he hstop hk hclosed
  refine ⟨he, _, ?_, rfl⟩
  rw [Production.parse_eq_read (p := .expression false) hclosed trivial] at hread
  rw [Production.parse_eq_read (p := .expression false) hc trivial]
  exact (Grammar.overlooks_expression Production.parse false token newline _ _ _ _).trans hread

theorem restart (h : Concludes (Production.expression false).parse read start expr) (start' : Nat) :
    Concludes (Production.expression false).parse read start' expr := by
  obtain ⟨token, read, rfl⟩ := List.exists_cons_of_ne_nil h.ne_nil
  exact h.relined token.newlineBefore start'

theorem parse (h : Concludes (Production.expression false).parse read start expr)
    (hc : Cursor.Closed ⟨read, last, 0⟩) :
    (Production.expression false).parse ⟨read, last, 0⟩ =
      .ok (expr, ⟨[], last, Token.stopOf read 0⟩) := by
  let d : Cursor := ⟨[], last, Token.stopOf read 0⟩
  have hd : d.Closed := ⟨hc.endOfFile, hc.text, nofun⟩
  have hbehind : d.behind read 0 = ⟨read, last, 0⟩ := by
    rw [Cursor.behind, List.append_nil]
  have hk : d.current.kind.isClosing = true := by
    rw [show d.current.kind = .endOfFile from hc.endOfFile]
    rfl
  obtain ⟨-, expr, hread, rfl⟩ := h.restart 0 d hd rfl hk (hbehind ▸ hc)
  exact hbehind ▸ hread

theorem covers (h : Concludes (Production.expression false).parse read start expr)
    (hc : Cursor.Over read last ⟨read, last, 0⟩)
    (hn : ¬ Stands (.parenthesized expr) ⟨read, last, 0⟩ ⟨[], last, Token.stopOf read 0⟩) :
    expr.Covers read := by
  obtain ⟨-, hs⟩ :=
    Grammar.sound_upTo _ (.expression false) _ hc.closed trivial expr _ (h.parse hc.closed)
  exact Stands.covers hs hn hc rfl

end TokenReader.Concludes

/-- In tokens that leave everything as it is, no parenthesis closes one in front of them. -/
theorem Token.not_closing {left more : List Token} {token : Token}
    (h : ∀ within, nest within left = some within) (hk : token.kind = .symbol .rightParen) :
    ¬ ∀ within, nest within (left ++ token :: more) = some within := by
  intro hall
  have houter := hall []
  have hinner := hall [.paren]
  rw [nest_append (h _), nest_cons (by rw [hk]; nofun), hk] at houter hinner
  have hmore : nest [] more = some [] := houter
  cases hmore.symm.trans hinner

theorem Token.closing_unique {left left' rest rest' : List Token} {token token' : Token}
    (h : ∀ within, nest within left = some within) (h' : ∀ within, nest within left' = some within)
    (hk : token.kind = .symbol .rightParen) (hk' : token'.kind = .symbol .rightParen)
    (he : left ++ token :: rest = left' ++ token' :: rest') : rest = rest' := by
  rcases List.append_eq_append_iff.1 he with ⟨more, rfl, hmore⟩ | ⟨more, rfl, hmore⟩
  · cases more with
    | nil => exact (List.cons.inj hmore).2
    | cons first more =>
      obtain ⟨rfl, -⟩ := List.cons.inj hmore
      exact absurd h' (not_closing h hk)
  · cases more with
    | nil => exact (List.cons.inj hmore).2.symm
    | cons first more =>
      obtain ⟨rfl, -⟩ := List.cons.inj hmore
      exact absurd h (not_closing h' hk')

theorem Stands.exists_nests (h : Stands (.expr expr) c d) :
    ∃ read, c.ahead = read ++ d.ahead ∧ ∀ within, nest within read = some within := by
  obtain ⟨read, hread, -⟩ := h.nests [] trivial
  refine ⟨read, hread, fun within => ?_⟩
  obtain ⟨read', hread', hnest⟩ := h.nests within trivial
  obtain rfl := List.append_cancel_right (hread.symm.trans hread')
  exact hnest

namespace Grammar

variable {c d m : Cursor} {P : Expr → Prop}

theorem exists_primary (h : expression Production.parse noIn c = .ok (expr, d))
    (hk : c.current.kind = .symbol .leftParen) :
    ∃ inner m, primary Production.parse c = .ok (inner, m) := by
  obtain ⟨_, hassignment, -⟩ := bind_eq_ok.1 h
  obtain ⟨_, hconditional, -⟩ := bind_eq_ok.1 hassignment
  obtain ⟨_, hbinary, -⟩ := bind_eq_ok.1 hconditional
  obtain ⟨_, hunary, -⟩ := bind_eq_ok.1 hbinary
  rw [unary, TokenReader.peek_bind, hk] at hunary
  obtain ⟨_, hcall, -⟩ := bind_eq_ok.1 hunary
  rw [call, Production.isAt_of_ne (by rw [hk]; nofun)] at hcall
  obtain ⟨⟨inner, m⟩, hprimary, -⟩ := bind_eq_ok.1 hcall
  exact ⟨inner, m, hprimary⟩

theorem reads_lone_primary (h : Reads (primary Production.parse) c d P)
    (hk : c.current.kind = .symbol .leftParen) (hd : d.current.kind.isClosing = true) :
    Reads (expression Production.parse false) c d P := by
  have hstops := TokenKind.stops_of_isClosing false hd
  have hcall : Reads (call Production.parse) c d P :=
    reads_call h (by rw [hk]; nofun) hstops.suffix
  have hunary : Reads (unary Production.parse) c d P :=
    reads_unary (reads_postfixUpdate hcall hstops.update) (by rw [hk]; rfl) (by rw [hk]; rfl)
  have hconditional : Reads (conditional Production.parse false) c d P :=
    reads_conditional (reads_binary hunary hstops.binary) hstops.question
  exact reads_expression (reads_assignment hconditional hstops.assign)
    (TokenKind.ne_of_isClosing hd rfl)

theorem yields_between (hc : c.Closed) :
    (parenthesized Production.parse).Yields c fun expr d => ∃ c₁ c₂, c.PassesSymbol .leftParen c₁ ∧
      (Production.expression false).parse c₁ = .ok (expr, c₂) ∧ c₂.PassesSymbol .rightParen d := by
  refine .symbol hc fun c₁ hc₁ hl => ?_
  have hread : (Production.expression false).parse.Yields c₁ fun expr c₂ =>
      (Production.expression false).parse c₁ = .ok (expr, c₂) :=
    fun _ _ h => ⟨Production.closed_of_parse (p := .expression false) hc₁ trivial h, h⟩
  exact .bind hread fun expr c₂ hc₂ h => .symbol hc₂ fun d hd hr => .pure hd ⟨c₁, c₂, hl, h, hr⟩

/-- If an expression in parentheses is all that is ahead, the expression is read between them. -/
theorem exists_inner {expr : Expr} (hc : c.Closed)
    (h : expression Production.parse false c = .ok (expr, d))
    (hl : c.PassesSymbol .leftParen c₁) (hexpr : Stands (.expr expr) c₁ c₂)
    (hr : c₂.PassesSymbol .rightParen d) (hd : d.ahead = []) :
    ∃ m, (Production.expression false).parse c₁ = .ok (expr, m) := by
  obtain ⟨opening, hp, hopen⟩ := hl
  obtain ⟨closing, hp', hclose⟩ := hr
  have hk : c.current.kind = .symbol .leftParen := by
    rw [hp.current, hopen]
  obtain ⟨inner, e, hprimary⟩ := exists_primary h hk
  have hparenthesized : parenthesized Production.parse c = .ok (inner, e) := by
    rw [primary, TokenReader.peek_bind, hk] at hprimary
    exact hprimary
  obtain ⟨he, m₁, m₂, ⟨opening', hq, -⟩, hinner, closing', hq', hclose'⟩ :=
    yields_between hc inner e hparenthesized
  obtain rfl : m₁ = c₁ := hq.advance.symm.trans hp.advance
  -- The reader finds the closing parenthesis of the phrase, so nothing is left behind it.
  obtain ⟨-, hstands⟩ :=
    sound_upTo _ (.expression false) m₁ (hp.closed hc) trivial inner m₂ hinner
  obtain ⟨left, hleft, hnest⟩ := hexpr.exists_nests
  obtain ⟨left', hleft', hnest'⟩ := Stands.exists_nests hstands
  have hahead : d.ahead = e.ahead := by
    apply Token.closing_unique hnest hnest' hclose hclose'
    rw [← hp'.ahead, ← hq'.ahead, ← hleft, hleft']
  have hclosing : e.current.kind.isClosing = true := by
    rw [Cursor.current, ← hahead, hd, List.headD_nil, he.endOfFile]
    rfl
  have hreads : Reads (primary Production.parse) c e (· = inner) :=
    fun _ => ⟨he, inner, hprimary, rfl⟩
  obtain ⟨-, _, hall, rfl⟩ := reads_lone_primary hreads hk hclosing hc
  obtain ⟨rfl, -⟩ := Prod.mk.inj (Except.ok.inj (hall.symm.trans h))
  exact ⟨m₂, hinner⟩

end Grammar

namespace TokenReader.Concludes

variable {read : List Token} {last : Token} {expr : Expr}

theorem between (h : Concludes (Production.expression false).parse read start expr)
    (hc : Cursor.Closed ⟨read, last, 0⟩)
    (hs : Stands (.parenthesized expr) ⟨read, last, 0⟩ ⟨[], last, Token.stopOf read 0⟩) :
    ∃ inner start', inner <:+: read ∧ inner.length < read.length ∧
      Concludes (Production.expression false).parse inner start' expr := by
  have hread := h.parse hc
  generalize Token.stopOf read 0 = stop at hs hread
  rw [Production.parse_eq_read (p := .expression false) hc trivial] at hread
  cases hs with
  | @parenthesized _ c₁ _ c₂ _ hl hexpr hr =>
    obtain ⟨m, hinner⟩ := Grammar.exists_inner hc hread hl hexpr hr rfl
    obtain ⟨opening, hp, -⟩ := hl
    have hrests : c₁.Rests read := ⟨hp.closed hc, [opening], hp.ahead.symm⟩
    obtain ⟨own, -, -, hagain⟩ := (Production.repeatsAt hrests).expression false expr m hinner
    refine ⟨own, c₁.stop, hagain.isInfix hrests, ?_, hagain.concludes⟩
    exact Nat.lt_of_le_of_lt (Nat.le.intro hagain.length.symm) hp.length_lt

/-- An expression is read from some tokens without parentheses around all of them. -/
theorem exists_bare (h : Concludes (Production.expression false).parse read start expr)
    (hc : Cursor.Closed ⟨read, last, 0⟩) :
    ∃ own start', own <:+: read ∧ Concludes (Production.expression false).parse own start' expr ∧
      ¬ Stands (.parenthesized expr) ⟨own, last, 0⟩ ⟨[], last, Token.stopOf own 0⟩ := by
  induction hn : read.length using Nat.strongRecOn generalizing read start with
  | _ n ih =>
    by_cases hs : Stands (.parenthesized expr) ⟨read, last, 0⟩ ⟨[], last, Token.stopOf read 0⟩
    · obtain ⟨inner, start', hinner, hlt, hread⟩ := h.between hc hs
      have hclosed : Cursor.Closed ⟨inner, last, 0⟩ :=
        ⟨hc.endOfFile, hc.text, fun token hm => hc.ahead token (hinner.subset hm)⟩
      obtain ⟨own, start, hown, hconcludes, hbare⟩ := ih _ (hn ▸ hlt) hread hclosed rfl
      exact ⟨own, start, hown.trans hinner, hconcludes, hbare⟩
    · exact ⟨read, start, List.infix_rfl, h, hs⟩

end TokenReader.Concludes

end FlowLint
