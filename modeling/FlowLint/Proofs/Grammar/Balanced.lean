import FlowLint.Proofs.Grammar.Bracket
import FlowLint.Proofs.Grammar.Phrase

namespace FlowLint
set_option autoImplicit true

namespace Cursor

/-- Across tokens between two cursors, within what is open in front of them and behind them. -/
def Nests (c : Cursor) (within inner : List Bracket) (d : Cursor) : Prop :=
  ∃ read, c.ahead = read ++ d.ahead ∧ nest within read = some inner

variable {c m d : Cursor} {within inner outer : List Bracket} {token : Token}

namespace Nests

theorem nil : c.Nests within within c :=
  ⟨[], rfl, rfl⟩

theorem append (h : c.Nests within inner m) (h' : m.Nests inner outer d) :
    c.Nests within outer d := by
  obtain ⟨read, hc, hread⟩ := h
  obtain ⟨read', hm, hread'⟩ := h'
  refine ⟨read ++ read', by rw [hc, hm, List.append_assoc], ?_⟩
  rw [nest_append hread, hread']

end Nests

theorem Passes.nests (h : c.Passes token d) (hd : token.kind ≠ .symbol .dot) :
    c.Nests within (token.kind.nest within) d :=
  ⟨[token], h.ahead, by rw [nest_cons hd]; rfl⟩

theorem Passes.nests_plain (h : c.Passes token d) (hp : token.kind.Plain) :
    c.Nests within within d := by
  have hn : c.Nests within (token.kind.nest within) d := h.nests hp.ne_dot
  rwa [hp.nest] at hn

theorem PassesSymbol.nests {s : Symbol} (h : c.PassesSymbol s d) (hd : s ≠ .dot := by nofun) :
    c.Nests within ((TokenKind.symbol s).nest within) d := by
  obtain ⟨token, hp, hk⟩ := h
  have hn : c.Nests within (token.kind.nest within) d := hp.nests (by simpa [hk] using hd)
  rwa [hk] at hn

theorem PassesKeyword.nests (h : c.PassesKeyword k d) : c.Nests within within d := by
  obtain ⟨token, hp, hk⟩ := h
  exact hp.nests_plain (hk ▸ TokenKind.plain_keyword k)

theorem PassesName.nests (h : c.PassesName name d) : c.Nests within within d := by
  obtain ⟨token, hp, hk, -⟩ := h
  exact hp.nests_plain (hk ▸ TokenKind.plain_name)

theorem PassesSymbol.nests_property (h : c.PassesSymbol .dot m) (h' : m.Passes token d) :
    c.Nests within within d := by
  obtain ⟨dot, hp, hk⟩ := h
  refine ⟨[dot, token], by rw [hp.ahead, h'.ahead]; rfl, ?_⟩
  rw [nest_dot hk]
  rfl

theorem PassesFunctionName.nests (h : c.PassesFunctionName name d) : c.Nests within within d := by
  cases h with
  | absent => exact .nil
  | present h => exact h.nests

theorem PassesLabel.nests (h : c.PassesLabel label d) : c.Nests within within d := by
  cases h with
  | absent => exact .nil
  | present h => exact h.nests

theorem PassesParameters.nests (h : PassesParameters c names d) :
    c.Nests (.paren :: within) within d := by
  induction h with
  | nil h => exact h.nests
  | last h hr => exact h.nests.append hr.nests
  | cons h hc _ ih => exact h.nests.append (hc.nests.append ih)

theorem PassesEach.nests (h : c.PassesEach kind d) : c.Nests within within d := by
  cases h with
  | keys h => exact h.nests
  | items h ho =>
    have hk := beq_iff_eq.1 (Bool.and_eq_true_iff.1 ho).1
    exact h.nests_plain (hk ▸ TokenKind.plain_name)

theorem Ends.nests (h : c.Ends d) : c.Nests within within d := by
  cases h with
  | semicolon h => exact h.nests
  | implied => exact .nil

theorem MayEnd.nests (h : c.MayEnd d) : c.Nests within within d := by
  cases h with
  | semicolon h => exact h.nests
  | absent => exact .nil

end Cursor

namespace Phrase

/-- Where a phrase may stand: one with labels or clauses not right in the middle operand of a
conditional. -/
def Fits (within : List Bracket) : Phrase → Prop
  | stmt _ | stmts _ | orElse _ | clauses _ => (TokenKind.symbol .colon).nest within = within
  | elements close _ => close ≠ .dot
  | _ => True

/-- What is open behind a phrase. -/
def leaves (within : List Bracket) : Phrase → List Bracket
  | elements close _ => (TokenKind.symbol close).nest within
  | _ => within

end Phrase

/-- Only the closing symbol of a list of elements closes what is open in front of its phrase. -/
theorem Stands.nests (h : Stands p c d) (within : List Bracket) (hf : p.Fits within) :
    c.Nests within (p.leaves within) d := by
  induction h generalizing within with
  | parenthesized hl h hr ih => exact hl.nests.append ((ih _ trivial).append hr.nests)
  | parens h ih => exact ih within trivial
  | name h hk => exact h.nests_plain (hk ▸ TokenKind.plain_name)
  | number h hk hv => exact h.nests_plain (hk ▸ ⟨nofun, fun _ => rfl⟩)
  | string h hk => exact h.nests_plain (hk ▸ ⟨nofun, fun _ => rfl⟩)
  | boolean h hk => exact h.nests_plain (hk ▸ TokenKind.plain_keyword _)
  | null h hk => exact h.nests_plain (hk ▸ TokenKind.plain_keyword _)
  | array hl h ih => exact hl.nests.append (ih _ nofun)
  | call h hl ha ih iha => exact (ih within trivial).append (hl.nests.append (iha _ nofun))
  | new hn h hl ha ih iha =>
    exact hn.nests.append ((ih within trivial).append (hl.nests.append (iha _ nofun)))
  | bareNew hn h hl ih => exact hn.nests.append (ih within trivial)
  | member h hd hp hs ih => exact (ih within trivial).append (hd.nests_property hp)
  | subscript h hl hi hr ih ihi =>
    exact (ih within trivial).append (hl.nests.append ((ihi _ trivial).append hr.nests))
  | unary ho hk h ih =>
    exact (ho.nests_plain (TokenKind.plain_of_unaryOp? hk)).append (ih within trivial)
  | before ho hk h ih =>
    exact (ho.nests_plain (TokenKind.plain_of_updateOp? hk)).append (ih within trivial)
  | after h ho hk hn ih =>
    exact (ih within trivial).append (ho.nests_plain (TokenKind.plain_of_updateOp? hk))
  | binary hl ho hk hr ihl ihr =>
    have hop : Cursor.Nests _ within within _ :=
      ho.nests_plain (TokenKind.plain_of_binaryOp? hk)
    exact (ihl within trivial).append (hop.append (ihr within trivial))
  | assign ht ha ho hk hv iht ihv =>
    have hop : Cursor.Nests _ within within _ :=
      ho.nests_plain (TokenKind.plain_of_assignOp? hk)
    exact (iht within trivial).append (hop.append (ihv within trivial))
  | conditional ht hq hw hc hf iht ihw ihf =>
    have hmiddle : Cursor.Nests _ within within _ :=
      hq.nests.append ((ihw _ trivial).append hc.nests)
    exact (iht within trivial).append (hmiddle.append (ihf within trivial))
  | sequence h hc h' hp ih ih' ihp =>
    have hrest := (ih' within trivial).append (ihp within trivial)
    exact (ih within trivial).append (hc.nests.append hrest)
  | functionExpr hk hn hl hp ho hb hr ih =>
    have hbody : Cursor.Nests _ within within _ :=
      ho.nests.append ((ih (.brace :: within) rfl).append hr.nests)
    exact hk.nests.append (hn.nests.append (hl.nests.append (hp.nests.append hbody)))
  | noParts => exact .nil
  | parts hc h hp ih ihp =>
    exact hc.nests.append ((ih within trivial).append (ihp within trivial))
  | noElements h => exact h.nests hf
  | lastElement hn h hr ih => exact (ih within trivial).append (hr.nests hf)
  | elements hn h hc he ih ihe =>
    exact (ih within trivial).append (hc.nests.append (ihe within hf))
  | noOption => exact .nil
  | option h ih => exact ih within trivial
  | noInitializer => exact .nil
  | initializer ha h ih => exact ha.nests.append (ih within trivial)
  | expression h he ih => exact (ih within trivial).append he.nests
  | declaration hk hd he ih => exact hk.nests.append ((ih within trivial).append he.nests)
  | function hk hn hl hp ho hb hr ih =>
    have hbody : Cursor.Nests _ within within _ :=
      ho.nests.append ((ih (.brace :: within) rfl).append hr.nests)
    exact hk.nests.append (hn.nests.append (hl.nests.append (hp.nests.append hbody)))
  | ifStmt hk ht hb he iht ihb ihe =>
    exact hk.nests.append ((iht within trivial).append ((ihb within hf).append (ihe within hf)))
  | whileStmt hk ht hb iht ihb => exact hk.nests.append ((iht within trivial).append (ihb within hf))
  | doStmt hk hb hw ht he ihb iht =>
    have htest := (iht within trivial).append he.nests
    exact hk.nests.append ((ihb within hf).append (hw.nests.append htest))
  | forStmt hk hl hi hs ht hs' hu hr hb ihi iht ihu ihb =>
    have hupdate : Cursor.Nests _ (.paren :: within) within _ :=
      (ihu _ trivial).append (hr.nests.append (ihb within hf))
    have htest : Cursor.Nests _ (.paren :: within) within _ :=
      hs.nests.append ((iht _ trivial).append (hs'.nests.append hupdate))
    exact hk.nests.append (hl.nests.append ((ihi _ trivial).append htest))
  | forEach hk hl hh he h hr hb ihh ih ihb =>
    have hright : Cursor.Nests _ (.paren :: within) within _ :=
      (ih _ trivial).append (hr.nests.append (ihb within hf))
    exact hk.nests.append (hl.nests.append ((ihh _ trivial).append (he.nests.append hright)))
  | jump hk hl he => exact hk.nests.append (hl.nests.append he.nests)
  | bareReturn hk he => exact hk.nests.append he.nests
  | returnStmt hk hn h he ih => exact hk.nests.append ((ih within trivial).append he.nests)
  | throwStmt hk hn h he ih => exact hk.nests.append ((ih within trivial).append he.nests)
  | tryStmt hk hb hh hf hs ihb ihh ihf =>
    have hends := (ihh within trivial).append (ihf within trivial)
    exact hk.nests.append ((ihb within trivial).append hends)
  | switchStmt hk hd hl hc hr ihd ihc =>
    have hclauses : Cursor.Nests _ within within _ :=
      hl.nests.append ((ihc (.brace :: within) rfl).append hr.nests)
    exact hk.nests.append ((ihd within trivial).append hclauses)
  | blockStmt h ih => exact ih within trivial
  | labeled hn hc hb ih =>
    have hcolon : Cursor.Nests _ within within _ := hf ▸ hc.nests
    exact hn.nests.append (hcolon.append (ih within hf))
  | empty h => exact h.nests
  | debugger hk he => exact hk.nests.append he.nests
  | withStmt hk ho hb iho ihb => exact hk.nests.append ((iho within trivial).append (ihb within hf))
  | noStmts => exact .nil
  | stmts h hs ih ihs => exact (ih within hf).append (ihs within hf)
  | noElse => exact .nil
  | orElse hk h ih => exact hk.nests.append (ih within hf)
  | lastDeclarator hn hi ih => exact hn.nests.append (ih within trivial)
  | declarators hn hi hc hd ihi ihd =>
    exact hn.nests.append ((ihi within trivial).append (hc.nests.append (ihd within trivial)))
  | headExpression h ih => exact ih within trivial
  | headDeclaration hk hd ih => exact hk.nests.append (ih within trivial)
  | noInit => exact .nil
  | init h ih => exact ih within trivial
  | block hl h hr ih => exact hl.nests.append ((ih (.brace :: within) rfl).append hr.nests)
  | noParameter => exact .nil
  | parameter h ih => exact ih within trivial
  | noHandler => exact .nil
  | handler hk hp hb ihp ihb =>
    exact hk.nests.append ((ihp within trivial).append (ihb within trivial))
  | noFinalizer => exact .nil
  | finalizer hk hb ih => exact hk.nests.append (ih within trivial)
  | defaultTest hk => exact hk.nests
  | test hk h ih => exact hk.nests.append (ih within trivial)
  | noClauses => exact .nil
  | clauses ht hc hb hs iht ihb ihs =>
    have hcolon : Cursor.Nests _ within within _ := hf ▸ hc.nests
    have hbody := (ihb within hf).append (ihs within hf)
    exact (iht within trivial).append (hcolon.append hbody)

end FlowLint
