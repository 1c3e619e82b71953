import FlowLint.Proofs.Grammar.Nesting
import FlowLint.Proofs.Grammar.SeparateStatement

namespace FlowLint
set_option autoImplicit true

def Token.BehindDot (others : List Token) (word : Token) : Prop :=
  ∃ dot, dot.kind = .symbol .dot ∧ [dot, word] <:+: others

namespace Piece

/-- A word is the operator `in` of a piece, between its operands. -/
def OperatedBy (word : Token) : Piece → Prop
  | expression (.binary _ .isIn left right) =>
    word.Between [.expression left] [.expression right]
  | _ => False

/-- A word stands behind the first part of the head of a loop over keys. -/
def HeadedBy (others : List Token) (word : Token) : Piece → Prop
  | statement (.forEach range .keys left _ _) =>
    ∃ head, Heads others range.start (.head left) head word
  | _ => False

/-- A word belongs to a piece, as its operator or in its head. -/
def Owns (others : List Token) (piece : Piece) (word : Token) : Prop :=
  piece.OperatedBy word ∨ piece.HeadedBy others word

end Piece

open Piece (Owns)

/-- The words `in` among some tokens are property names or belong to pieces of a row. -/
def Explained (others : List Token) (row : List Piece) (read : List Token) : Prop :=
  ∀ word ∈ read, word.kind = .keyword .in →
    word.BehindDot others ∨ ∃ piece ∈ row.flatMap Piece.pieces, piece.Owns others word

namespace Explained

variable {others read read' : List Token} {row row' : List Piece} {piece : Piece}

theorem append (h : Explained others row read) (h' : Explained others row' read') :
    Explained others (row ++ row') (read ++ read') := by
  intro word hm hk
  rw [List.flatMap_append]
  rcases List.mem_append.1 hm with hm | hm
  · obtain hdot | ⟨piece, hp, hown⟩ := h word hm hk
    · exact .inl hdot
    · exact .inr ⟨piece, List.mem_append_left _ hp, hown⟩
  · obtain hdot | ⟨piece, hp, hown⟩ := h' word hm hk
    · exact .inl hdot
    · exact .inr ⟨piece, List.mem_append_right _ hp, hown⟩

/-- What the children of a piece explain, the piece explains. -/
theorem node (h : Explained others piece.children read) : Explained others [piece] read := by
  intro word hm hk
  rw [List.flatMap_singleton, Piece.pieces_eq]
  obtain hdot | ⟨part, hp, hown⟩ := h word hm hk
  · exact .inl hdot
  · exact .inr ⟨part, List.mem_cons_of_mem _ hp, hown⟩

theorem children (h : Explained others [piece] read) (hn : ∀ word, ¬ piece.Owns others word) :
    Explained others piece.children read := by
  intro word hm hk
  have hword := h word hm hk
  rw [List.flatMap_singleton, Piece.pieces_eq] at hword
  obtain hdot | ⟨part, hp, hown⟩ := hword
  · exact .inl hdot
  · rcases List.mem_cons.1 hp with rfl | hp
    · exact absurd hown (hn word)
    · exact .inr ⟨part, hp, hown⟩

theorem own (h : word.kind = .keyword .in → piece.Owns others word) :
    Explained others [piece] [word] := by
  intro word' hm hk
  obtain rfl := List.mem_singleton.1 hm
  rw [List.flatMap_singleton, Piece.pieces_eq]
  exact .inr ⟨piece, List.mem_cons_self .., h hk⟩

end Explained

namespace Cursor

/-- From one cursor to the next over the rest of a source, across tokens that a row of pieces
explains. -/
def Explains (others : List Token) (last : Token) (c : Cursor) (row : List Piece) (d : Cursor) :
    Prop :=
  c.Remains others last → d.Remains others last ∧
    ∃ read, c.ahead = read ++ d.ahead ∧ Explained others row read

variable {others : List Token} {last token : Token} {row row' : List Piece} {piece : Piece}
  {c m n d : Cursor}

namespace Explains

theorem nil : Explains others last c [] c :=
  fun hc => ⟨hc, [], rfl, nofun⟩

theorem append (h : Explains others last c row m) (h' : Explains others last m row' d) :
    Explains others last c (row ++ row') d := by
  intro hc
  obtain ⟨hm, read, hread, hx⟩ := h hc
  obtain ⟨hd, read', hread', hx'⟩ := h' hm
  exact ⟨hd, read ++ read', by rw [hread, hread', List.append_assoc], hx.append hx'⟩

theorem skip (h : Explains others last c row m) (h' : Explains others last m [] d) :
    Explains others last c row d := by
  have hboth := h.append h'
  rwa [List.append_nil] at hboth

theorem node (h : Explains others last c piece.children d) :
    Explains others last c [piece] d := by
  intro hc
  obtain ⟨hd, read, hread, hx⟩ := h hc
  exact ⟨hd, read, hread, hx.node⟩

end Explains

theorem Explains.block {place : Range} (h : Explains others last c [.block ⟨place, body⟩] d) :
    Explains others last c [.statement (.block place body)] d := by
  intro hc
  obtain ⟨hd, read, hread, hx⟩ := h hc
  have hchildren := hx.children fun _ hown => hown.elim id id
  exact ⟨hd, read, hread, .node hchildren⟩

theorem Passes.explains (h : c.Passes token d) (hk : token.kind ≠ .keyword .in) :
    Explains others last c [] d := by
  intro hc
  refine ⟨hc.passes h, [token], h.ahead, ?_⟩
  intro word hm hin
  obtain rfl := List.mem_singleton.1 hm
  exact absurd hin hk

theorem PassesSymbol.explains (h : c.PassesSymbol s d) : Explains others last c [] d := by
  obtain ⟨token, hp, hk⟩ := h
  exact hp.explains (by rw [hk]; nofun)

theorem PassesKeyword.explains (h : c.PassesKeyword k d) (hk : k ≠ .in := by nofun) :
    Explains others last c [] d := by
  obtain ⟨token, hp, hkind⟩ := h
  exact hp.explains (by simpa [hkind] using hk)

theorem PassesName.explains (h : c.PassesName name d) :
    Explains others last c [.identifier name] d := by
  obtain ⟨token, hp, hk, -⟩ := h
  have hleaf : Explains others last c (Piece.identifier name).children d :=
    hp.explains (by rw [hk]; nofun)
  exact hleaf.node

/-- Whatever stands behind a dot is a property name. -/
theorem PassesSymbol.explains_property (h : c.PassesSymbol .dot m) (hp : m.Passes token d) :
    Explains others last c [.identifier name] d := by
  have hleaf : Explains others last c (Piece.identifier name).children d := by
    intro hc
    have hm := hc.passes h.choose_spec.1
    obtain ⟨dot, hdot, hk⟩ := h
    refine ⟨hm.passes hp, [dot, token], by rw [hdot.ahead, hp.ahead]; rfl, ?_⟩
    intro word hw hin
    have hword : word = token := by
      rcases List.mem_pair.1 hw with rfl | rfl
      · rw [hk] at hin
        cases hin
      · rfl
    obtain ⟨before, hbefore⟩ := hc.suffix
    refine .inl ⟨dot, hk, before, d.ahead, ?_⟩
    rw [← hbefore, hdot.ahead, hp.ahead, hword, List.append_assoc]
    rfl
  exact hleaf.node

theorem PassesFunctionName.explains (h : c.PassesFunctionName name d) :
    Explains others last c (name.toList.map .identifier) d := by
  cases h with
  | absent => exact .nil
  | present h => exact h.explains

theorem PassesLabel.explains (h : c.PassesLabel label d) :
    Explains others last c (label.toList.map .identifier) d := by
  cases h with
  | absent => exact .nil
  | present h => exact h.explains

theorem PassesParameters.explains (h : PassesParameters c names d) :
    Explains others last c (names.map .identifier) d := by
  induction h with
  | nil h => exact h.explains
  | last h hr => exact h.explains.skip hr.explains
  | cons h hc _ ih => exact (h.explains.skip hc.explains).append ih

theorem Ends.explains (h : c.Ends d) : Explains others last c [] d := by
  cases h with
  | semicolon h => exact h.explains
  | implied => exact .nil

theorem MayEnd.explains (h : c.MayEnd d) : Explains others last c [] d := by
  cases h with
  | semicolon h => exact h.explains
  | absent => exact .nil

theorem Explains.join (h : Explains others last c row m) (hp : m.Passes token n)
    (h' : Explains others last n row' d) (hrow : piece.children = row ++ row')
    (hown : c.Remains others last → token.kind = .keyword .in → piece.Owns others token) :
    Explains others last c [piece] d := by
  intro hc
  obtain ⟨hm, read, hread, hx⟩ := h hc
  obtain ⟨hd, read', hread', hx'⟩ := h' (hm.passes hp)
  refine ⟨hd, read ++ token :: read', ?_, ?_⟩
  · rw [hread, hp.ahead, hread', List.append_assoc]
    rfl
  have hparts : Explained others [piece] (read ++ read') := .node (hrow ▸ hx.append hx')
  intro word hw hk
  rcases List.mem_cons.1 (List.perm_middle.mem_iff.1 hw) with rfl | hw
  · exact Explained.own (hown hc) word (List.mem_singleton_self _) hk
  · exact hparts word hw hk

end Cursor

namespace TokenKind

variable {kind : TokenKind}

theorem ne_in_of_unaryOp? (h : kind.unaryOp? = some op) : kind ≠ .keyword .in := by
  rintro rfl
  cases h

theorem ne_in_of_updateOp? (h : kind.updateOp? = some op) : kind ≠ .keyword .in := by
  rintro rfl
  cases h

theorem ne_in_of_assignOp? (h : kind.assignOp? = some op) : kind ≠ .keyword .in := by
  rintro rfl
  cases h

theorem ofBool_ne_in (value : Bool) : keyword (.ofBool value) ≠ keyword .in := by
  cases value <;> decide

end TokenKind

theorem DeclarationKind.keyword_ne_in (kind : DeclarationKind) : kind.keyword ≠ .in := by
  cases kind <;> decide

theorem JumpKind.keyword_ne_in (kind : JumpKind) : kind.keyword ≠ .in := by
  cases kind <;> decide

open Cursor (Explains)

variable {others : List Token} {last : Token}

theorem Cursor.explains_leaf {expr : Expr} (h : c.Passes token d)
    (hk : token.kind ≠ .keyword .in) (hn : expr.children = []) :
    Explains others last c [.expression expr] d := by
  have hleaf : Explains others last c (Piece.expression expr).children d := by
    rw [Piece.children, hn]
    exact h.explains hk
  exact hleaf.node

/-- A phrase explains the words `in` that it is spelled with. -/
theorem Stands.explains (h : Stands p c d) : Explains others last c p.row d := by
  induction h with
  | parenthesized hl h hr ih => exact hl.explains.append (ih.skip hr.explains)
  | parens h ih => exact ih
  | name h hk | number h hk hv | string h hk | null h hk =>
    exact Cursor.explains_leaf h (by rw [hk]; nofun) rfl
  | boolean h hk =>
    exact Cursor.explains_leaf h (hk ▸ TokenKind.ofBool_ne_in _) rfl
  | array hl h ih => exact .node (hl.explains.append ih)
  | call h hl ha ih iha => exact .node ((ih.skip hl.explains).append iha)
  | new hn h hl ha ih iha => exact .node (hn.explains.append ((ih.skip hl.explains).append iha))
  | bareNew hn h hl ih => exact .node (hn.explains.append ih)
  | member h hd hp hs ih => exact .node (ih.append (hd.explains_property hp))
  | subscript h hl hi hr ih ihi =>
    exact .node ((ih.skip hl.explains).append (ihi.skip hr.explains))
  | unary ho hk h ih => exact .node ((ho.explains (TokenKind.ne_in_of_unaryOp? hk)).append ih)
  | before ho hk h ih => exact .node ((ho.explains (TokenKind.ne_in_of_updateOp? hk)).append ih)
  | after h ho hk hn ih => exact .node (ih.skip (ho.explains (TokenKind.ne_in_of_updateOp? hk)))
  | binary hl ho hk hr ihl ihr =>
    refine ihl.join ho ihr rfl fun hc hin => .inl ?_
    rw [hin] at hk
    cases hk
    exact ho.between hc.along hl.lays hr.lays
  | assign ht ha ho hk hv iht ihv =>
    exact .node ((iht.skip (ho.explains (TokenKind.ne_in_of_assignOp? hk))).append ihv)
  | conditional ht hq hw hc hf iht ihw ihf =>
    exact .node ((iht.skip hq.explains).append ((ihw.skip hc.explains).append ihf))
  | sequence h hc h' hp ih ih' ihp => exact .node ((ih.skip hc.explains).append (ih'.append ihp))
  | functionExpr hf hn hl hp ho hb hr ih =>
    have hbody := ho.explains.append (ih.skip hr.explains)
    exact .node ((hf.explains.append
      ((hn.explains.skip hl.explains).append hp.explains)).append hbody)
  | noParts => exact .nil
  | parts hc h hp ih ihp => exact hc.explains.append (ih.append ihp)
  | noElements h => exact h.explains
  | lastElement hn h hr ih => exact ih.skip hr.explains
  | elements hn h hc he ih ihe => exact (ih.skip hc.explains).append ihe
  | noOption => exact .nil
  | option h ih => exact ih
  | noInitializer => exact .nil
  | initializer ha h ih => exact ha.explains.append ih
  | expression h he ih => exact .node (ih.skip he.explains)
  | declaration hk hd he ih =>
    exact .node ((hk.explains (DeclarationKind.keyword_ne_in _)).append (ih.skip he.explains))
  | function hf hn hl hp ho hb hr ih =>
    have hbody := ho.explains.append (ih.skip hr.explains)
    have hrest := hp.explains.append hbody
    exact .node (hf.explains.append ((hn.explains.skip hl.explains).append hrest))
  | ifStmt hk ht hb he iht ihb ihe =>
    exact .node (hk.explains.append (iht.append (ihb.append ihe)))
  | whileStmt hk ht hb iht ihb => exact .node (hk.explains.append (iht.append ihb))
  | doStmt hk hb hw ht he ihb iht =>
    exact .node (hk.explains.append ((ihb.skip hw.explains).append (iht.skip he.explains)))
  | forStmt hk hl hi hs ht hs' hu hr hb ihi iht ihu ihb =>
    have hinit := hk.explains.append (hl.explains.append (ihi.skip hs.explains))
    have htest := hinit.append (iht.skip hs'.explains)
    exact .node ((htest.append (ihu.skip hr.explains)).append ihb)
  | forEach hk hl hh he h hr hb ihh ih ihb =>
    have hleft := hk.explains.append (hl.explains.append ihh)
    have hright := (ih.skip hr.explains).append ihb
    cases he with
    | keys he =>
      obtain ⟨word, hp, hin⟩ := he
      refine hleft.join hp hright rfl fun hc _ => .inr ?_
      obtain ⟨head, hahead, -⟩ := hh.nests [] trivial
      exact ⟨head, hk.heads hl hc.suffix hh hahead hp⟩
    | items hp hof =>
      have hne := Grammar.Stays.kind_of_isOf hof
      exact hleft.join hp hright rfl fun _ hin => by cases hne.symm.trans hin
  | jump hk hl he =>
    exact .node ((hk.explains (JumpKind.keyword_ne_in _)).append (hl.explains.skip he.explains))
  | bareReturn hk he => exact .node (hk.explains.append he.explains)
  | returnStmt hk hn h he ih => exact .node (hk.explains.append (ih.skip he.explains))
  | throwStmt hk hn h he ih => exact .node (hk.explains.append (ih.skip he.explains))
  | tryStmt hk hb hh hf hs ihb ihh ihf =>
    exact .node (hk.explains.append (ihb.append (ihh.append ihf)))
  | switchStmt hk hd hl hc hr ihd ihc =>
    exact .node (hk.explains.append ((ihd.skip hl.explains).append (ihc.skip hr.explains)))
  | blockStmt h ih => exact ih.block
  | labeled hn hc hb ih => exact .node ((hn.explains.skip hc.explains).append ih)
  | empty h => exact .node h.explains
  | debugger hk he => exact .node (hk.explains.append he.explains)
  | withStmt hk ho hb iho ihb => exact .node (hk.explains.append (iho.append ihb))
  | noStmts => exact .nil
  | stmts h hs ih ihs => exact ih.append ihs
  | noElse => exact .nil
  | orElse hk h ih => exact hk.explains.append ih
  | lastDeclarator hn hi ih => exact .node (hn.explains.append ih)
  | declarators hn hi hc hd ihi ihd =>
    have hfirst := hn.explains.append ihi
    exact (Explains.node hfirst).append (hc.explains.append ihd)
  | headExpression h ih => exact .node ih
  | headDeclaration hk hd ih =>
    exact .node ((hk.explains (DeclarationKind.keyword_ne_in _)).append ih)
  | noInit => exact .nil
  | init h ih => exact ih
  | block hl h hr ih => exact .node (hl.explains.append (ih.skip hr.explains))
  | noParameter => exact .nil
  | parameter h ih => exact ih
  | noHandler => exact .nil
  | handler hk hp hb ihp ihb => exact .node (hk.explains.append (ihp.append ihb))
  | noFinalizer => exact .nil
  | finalizer hk hb ih => exact hk.explains.append ih
  | defaultTest hk => exact hk.explains
  | test hk h ih => exact hk.explains.append ih
  | noClauses => exact .nil
  | clauses ht hc hb hs iht ihb ihs =>
    exact (Explains.node ((iht.skip hc.explains).append ihb)).append ihs

end FlowLint
