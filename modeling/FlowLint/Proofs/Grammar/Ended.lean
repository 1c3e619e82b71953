import FlowLint.Proofs.Grammar.SeparateStatement

/-!
Where a line ends a statement. A statement that takes a semicolon has one, or stands where its end is
implied; and where a line must not end, none does. So it is for every statement in a tree, because
the tokens in front of a cursor are those that were read up to it.
-/
namespace FlowLint
set_option autoImplicit true

/-- Whether a statement ends with a semicolon unless its end is implied. -/
def Stmt.takesEnd : Stmt → Bool
  | .expression .. | .declaration .. | .jump .. | .returnStmt .. | .throwStmt .. | .debugger .. =>
    true
  | _ => false

/-- A semicolon ends what stands in a range, or the next token implies the end. -/
def Range.Ended (list : List Token) (range : Range) : Prop :=
  ∃ before final next after, list = before ++ final :: next :: after ∧
    final.range.stop = range.stop ∧
    (final.kind = .symbol .semicolon ∧ range.start ≤ final.range.start ∨
      next.kind = .symbol .rightBrace ∨ next.kind = .endOfFile ∨ next.newlineBefore = true)

/-- A keyword begins a range, and a token stands right behind it. -/
def Range.OpensWith (list : List Token) (range : Range) (keyword : Keyword) (next : Token) : Prop :=
  ∃ before word after, list = before ++ word :: next :: after ∧ word.kind = .keyword keyword ∧
    word.range.start = range.start

/-- Two semicolons part the head of the `for` that begins a range. -/
def Range.Parted (list : List Token) (range : Range) (init : Option Stmt)
    (test update : Option Expr) : Prop :=
  ∃ before word paren inits first tests second updates close after last,
    list = before ++ word :: paren :: (inits ++ first :: (tests ++ second ::
      (updates ++ close :: (after ++ [last])))) ∧
    word.kind = .keyword .for ∧ word.range.start = range.start ∧ paren.kind = .symbol .leftParen ∧
    first.kind = .symbol .semicolon ∧ second.kind = .symbol .semicolon ∧
    close.kind = .symbol .rightParen ∧
    (Phrase.init init).SpelledBy inits (first :: (tests ++ second :: (updates ++ close :: after))) ∧
    (Phrase.option test).SpelledBy tests (second :: (updates ++ close :: after)) ∧
    (Phrase.option update).SpelledBy updates (close :: after)

/-- A statement that takes a semicolon has its end. -/
def Stmt.Ended (list : List Token) (stmt : Stmt) : Prop :=
  stmt.takesEnd = true → stmt.range.Ended list

namespace Piece

/-- The statements that a piece is made of, but for the one in the head of a `for`. -/
def steps : Piece → List Stmt
  | expression (.function _ _ _ body) | statement (.function _ _ _ body)
  | statement (.block _ body) | block ⟨_, body⟩ | clause ⟨_, _, body⟩ => body
  | statement (.ifStmt _ _ body orElse) => body :: orElse.toList
  | statement (.whileStmt _ _ body) | statement (.doStmt _ body _)
  | statement (.forStmt _ _ _ _ body) | statement (.forEach _ _ _ _ body)
  | statement (.labeled _ _ body) | statement (.withStmt _ _ body) => [body]
  | _ => []

def heads : Piece → List Stmt
  | statement (.forStmt _ init _ _ _) => init.toList
  | statement (.forEach _ _ left _ _) => [left]
  | _ => []

theorem statement_mem_children {piece : Piece} :
    .statement stmt ∈ piece.children ↔ stmt ∈ piece.steps ∨ stmt ∈ piece.heads := by
  rcases piece with _ | expr | stmt | ⟨_, _, _⟩ | ⟨_, _⟩ | ⟨_, _, _⟩ | ⟨_, _, _⟩
  case expression => cases expr <;> simp [children, Expr.children, steps, heads]
  case statement =>
    cases stmt <;> simp [children, Stmt.children, steps, heads]
    all_goals exact or_comm
  all_goals simp [children, steps, heads]

theorem exists_parent {piece part : Piece} (h : part ∈ piece.pieces) :
    part = piece ∨ ∃ parent ∈ piece.pieces, part ∈ parent.children := by
  induction piece using Piece.induction with
  | step piece ih =>
    rw [pieces_eq] at h
    rcases List.mem_cons.1 h with rfl | h
    · exact .inl rfl
    · obtain ⟨child, hc, hp⟩ := List.mem_flatMap.1 h
      rcases ih child hc hp with rfl | ⟨parent, hparent, hpart⟩
      · exact .inr ⟨piece, piece.self_mem_pieces, hc⟩
      · exact .inr ⟨parent, pieces_subset_of_child hc hparent, hpart⟩

/-- No line ends where a piece must not be broken, and the semicolons in the head of a `for` are
written. -/
def Unbroken (list : List Token) : Piece → Prop
  | statement (.jump range kind (some label)) =>
    ∃ name, range.OpensWith list kind.keyword name ∧ label = ⟨name.text, name.range⟩ ∧
      name.newlineBefore = false
  | statement (.returnStmt range (some _)) =>
    ∃ first, range.OpensWith list .return first ∧ first.newlineBefore = false
  | statement (.throwStmt range _) =>
    ∃ first, range.OpensWith list .throw first ∧ first.newlineBefore = false
  | expression (.update range op .after target) =>
    ∃ token ∈ list, token.range.stop = range.stop ∧ target.range.stop ≤ token.range.start ∧
      token.kind.updateOp? = some op ∧ token.newlineBefore = false
  | statement (.forStmt range init test update _) => range.Parted list init test update
  | _ => True

/-- A piece is not broken, and the statements that it is made of have their ends. -/
structure Settled (list : List Token) (piece : Piece) : Prop where
  unbroken : piece.Unbroken list
  ended : ∀ stmt ∈ piece.steps, stmt.Ended list

end Piece

def Script.steps (script : Script) : List Stmt :=
  script.body ++ script.pieces.flatMap Piece.steps

def Phrase.steps : Phrase → List Stmt
  | stmt s => [s]
  | stmts ss => ss
  | orElse s => s.toList
  | _ => []

theorem TokenReader.newlineBefore_of_endsStatement {token : Token}
    (h : endsStatement token = false) : token.newlineBefore = false := by
  simp only [endsStatement, impliesEnd, Bool.or_eq_false_iff] at h
  exact h.2.2

namespace Cursor

/-- The tokens of a source are those that are read and those ahead, and the last one that is read
tells where reading has come to. -/
structure HasRead (others : List Token) (last : Token) (read : List Token) (c : Cursor) : Prop
    extends Cursor.Over others last c where
  split : others = read ++ c.ahead
  stop_eq : c.stop = read.getLast?.elim 0 (·.range.stop)

/-- A cursor to which the tokens of a source are read. -/
def Reached (others : List Token) (last : Token) (c : Cursor) : Prop :=
  ∃ read, c.HasRead others last read

variable {others read : List Token} {last token : Token} {b c m d : Cursor}

theorem HasRead.passes (h : c.HasRead others last read) (hp : c.Passes token d) :
    d.HasRead others last (read ++ [token]) where
  toOver := hp.advance ▸ h.toOver.advance
  split := by rw [h.split, hp.ahead, List.append_assoc, List.singleton_append]
  stop_eq := by rw [hp.stop, List.getLast?_concat, Option.elim_some]

theorem exists_current_append (c : Cursor) :
    ∃ after, c.ahead ++ [c.endOfFile] = c.current :: after := by
  obtain ⟨_ | ⟨token, ahead⟩, endOfFile, stop⟩ := c
  · exact ⟨[], rfl⟩
  · exact ⟨ahead ++ [endOfFile], rfl⟩

theorem HasRead.exists_current (h : c.HasRead others last read) :
    ∃ after, others ++ [last] = read ++ c.current :: after := by
  obtain ⟨after, hafter⟩ := c.exists_current_append
  exact ⟨after, by rw [h.split, List.append_assoc, ← h.endOfFile, hafter]⟩

theorem HasRead.exists_final (h : c.HasRead others last read) (hs : 0 < c.stop) :
    ∃ before final, read = before ++ [final] ∧ final.range.stop = c.stop := by
  rcases List.eq_nil_or_concat' read with rfl | ⟨before, final, rfl⟩
  · have hstop := h.stop_eq
    simp only [List.getLast?_nil, Option.elim_none] at hstop
    omega
  · refine ⟨before, final, rfl, ?_⟩
    rw [h.stop_eq, List.getLast?_concat, Option.elim_some]

theorem Ends.ended (h : c.Ends d) (hb : b.Along others) (hc : c.Reached others last)
    (hcross : Crosses others b parts c) : (b.range d).Ended (others ++ [last]) := by
  obtain ⟨read, hc⟩ := hc
  have hne : b.current.range.start < c.stop := (hcross hb).spans.nonempty
  cases h with
  | semicolon h =>
    obtain ⟨token, hp, hk⟩ := h
    obtain ⟨after, hlist⟩ := (hc.passes hp).exists_current
    have hstart : b.current.range.start ≤ token.range.start := by
      have hstop := hc.along.stop_le
      rw [hp.current] at hstop
      omega
    refine ⟨read, token, d.current, after, ?_, hp.stop.symm, .inl ⟨hk, hstart⟩⟩
    rw [hlist, List.append_assoc, List.singleton_append]
  | implied h =>
    obtain ⟨before, final, rfl, hstop⟩ := hc.exists_final (Nat.zero_lt_of_lt hne)
    obtain ⟨after, hlist⟩ := hc.exists_current
    refine ⟨before, final, c.current, after, ?_, hstop, .inr ?_⟩
    · rw [hlist, List.append_assoc, List.singleton_append]
    · simpa [TokenReader.impliesEnd, or_assoc] using h

theorem PassesKeyword.opensWith (h : c.PassesKeyword k m) (hc : c.Reached others last) :
    (c.range d).OpensWith (others ++ [last]) k m.current := by
  obtain ⟨read, hc⟩ := hc
  obtain ⟨word, hp, hk⟩ := h
  obtain ⟨after, hlist⟩ := (hc.passes hp).exists_current
  refine ⟨read, word, after, ?_, hk, by rw [range, hp.current]⟩
  rw [hlist, List.append_assoc, List.singleton_append]

/-- What a phrase is spelled with, in front of the token behind it. -/
theorem Passes.exists_spelled (h : Stands phrase c m) (hf : phrase.Fits [])
    (hp : m.Passes token d) :
    ∃ read, c.ahead = read ++ token :: d.ahead ∧ phrase.SpelledBy read (token :: d.ahead) := by
  obtain ⟨read, hread, -⟩ := h.nests [] hf
  have hahead : c.ahead = read ++ token :: d.ahead := by rw [hread, hp.ahead]
  exact ⟨read, hahead, c, m, h, hahead, hp.ahead⟩

theorem PassesKeyword.parted {c₁ c₂ c₃ c₄ c₅ c₆ c₇ c₈ : Cursor} (hk : c.PassesKeyword .for c₁)
    (hl : c₁.PassesSymbol .leftParen c₂) (hi : Stands (.init init) c₂ c₃)
    (hs : c₃.PassesSymbol .semicolon c₄) (ht : Stands (.option test) c₄ c₅)
    (hs' : c₅.PassesSymbol .semicolon c₆) (hu : Stands (.option update) c₆ c₇)
    (hr : c₇.PassesSymbol .rightParen c₈) (hc : c.Reached others last) :
    (c.range d).Parted (others ++ [last]) init test update := by
  obtain ⟨read, hc⟩ := hc
  obtain ⟨word, hword, hfor⟩ := hk
  obtain ⟨paren, hparen, hopen⟩ := hl
  obtain ⟨first, hfirst, hfirst'⟩ := hs
  obtain ⟨second, hsecond, hsecond'⟩ := hs'
  obtain ⟨close, hclose, hclose'⟩ := hr
  obtain ⟨inits, hinits, hinit⟩ := hfirst.exists_spelled hi trivial
  obtain ⟨tests, htests, htest⟩ := hsecond.exists_spelled ht trivial
  obtain ⟨updates, hupdates, hupdate⟩ := hclose.exists_spelled hu trivial
  refine ⟨read, word, paren, inits, first, tests, second, updates, close, c₈.ahead, last, ?_, hfor,
    by rw [range, hword.current], hopen, hfirst', hsecond', hclose', ?_, ?_, hupdate⟩
  · rw [hc.split, hword.ahead, hparen.ahead, hinits, htests, hupdates]
    simp only [List.append_assoc, List.cons_append]
  · rwa [htests, hupdates] at hinit
  · rwa [hupdates] at htest

/-- From one cursor to the next over the tokens of a source, across statements that have their ends
and a row of pieces that are settled, with all that is in them. -/
def Settles (others : List Token) (last : Token) (c : Cursor) (steps : List Stmt)
    (row : List Piece) (d : Cursor) : Prop :=
  c.Reached others last → d.Reached others last ∧
    (∀ stmt ∈ steps, stmt.Ended (others ++ [last])) ∧
    ∀ piece ∈ row.flatMap Piece.pieces, piece.Settled (others ++ [last])

namespace Settles

variable {steps steps' : List Stmt} {row row' : List Piece} {piece : Piece} {stmt : Stmt}

theorem nil : Settles others last c [] [] c :=
  fun hc => ⟨hc, nofun, nofun⟩

theorem append (h : Settles others last c steps row m) (h' : Settles others last m steps' row' d) :
    Settles others last c (steps ++ steps') (row ++ row') d := by
  intro hc
  obtain ⟨hm, hsteps, hrow⟩ := h hc
  obtain ⟨hd, hsteps', hrow'⟩ := h' hm
  rw [List.flatMap_append]
  exact ⟨hd, List.forall_mem_append.2 ⟨hsteps, hsteps'⟩, List.forall_mem_append.2 ⟨hrow, hrow'⟩⟩

theorem skip (h : Settles others last c steps row m) (h' : Settles others last m [] [] d) :
    Settles others last c steps row d := by
  have hboth := h.append h'
  rwa [List.append_nil, List.append_nil] at hboth

/-- A piece is settled where the statements that it is made of have their ends. -/
theorem node (h : Settles others last c steps piece.children d)
    (hu : c.Reached others last → piece.Unbroken (others ++ [last]) := by intro _; trivial)
    (hs : piece.steps = steps := by rfl) :
    Settles others last c [] [piece] d := by
  intro hc
  obtain ⟨hd, hsteps, hrow⟩ := h hc
  refine ⟨hd, nofun, ?_⟩
  rw [List.flatMap_singleton, Piece.pieces_eq, List.forall_mem_cons]
  exact ⟨⟨hu hc, hs ▸ hsteps⟩, hrow⟩

theorem step (h : Settles others last c [] [.statement stmt] d)
    (he : c.Reached others last → stmt.Ended (others ++ [last]) := by intro _; exact nofun) :
    Settles others last c [stmt] [.statement stmt] d := by
  intro hc
  obtain ⟨hd, -, hrow⟩ := h hc
  exact ⟨hd, List.forall_mem_singleton.2 (he hc), hrow⟩

theorem block (h : Settles others last c [] [.block ⟨place, body⟩] d) :
    Settles others last c [.block place body] [.statement (.block place body)] d := by
  refine step fun hc => ?_
  obtain ⟨hd, -, hrow⟩ := h hc
  rw [List.flatMap_singleton, Piece.pieces_eq, List.forall_mem_cons] at hrow ⊢
  exact ⟨hd, nofun, ⟨trivial, hrow.1.ended⟩, hrow.2⟩

end Settles

theorem Passes.settles (h : c.Passes token d) : Settles others last c [] [] d := by
  rintro ⟨read, hc⟩
  exact ⟨⟨_, hc.passes h⟩, nofun, nofun⟩

theorem Passes.settles_leaf {piece : Piece} (h : c.Passes token d) (hn : piece.children = [])
    (hs : piece.steps = [] := by rfl)
    (hu : piece.Unbroken (others ++ [last]) := by trivial) :
    Settles others last c [] [piece] d := by
  have hleaf : Settles others last c [] piece.children d := hn ▸ h.settles
  exact hleaf.node (fun _ => hu) hs

theorem PassesSymbol.settles (h : c.PassesSymbol s d) : Settles others last c [] [] d := by
  obtain ⟨token, hp, -⟩ := h
  exact hp.settles

theorem PassesKeyword.settles (h : c.PassesKeyword k d) : Settles others last c [] [] d := by
  obtain ⟨token, hp, -⟩ := h
  exact hp.settles

theorem PassesName.settles (h : c.PassesName name d) :
    Settles others last c [] [.identifier name] d := by
  obtain ⟨token, hp, -⟩ := h
  exact hp.settles_leaf rfl

theorem PassesFunctionName.settles (h : c.PassesFunctionName name d) :
    Settles others last c [] (name.toList.map .identifier) d := by
  cases h with
  | absent => exact .nil
  | present h => exact h.settles

theorem PassesLabel.settles (h : c.PassesLabel label d) :
    Settles others last c [] (label.toList.map .identifier) d := by
  cases h with
  | absent => exact .nil
  | present h => exact h.settles

theorem PassesParameters.settles (h : PassesParameters c names d) :
    Settles others last c [] (names.map .identifier) d := by
  induction h with
  | nil h => exact h.settles
  | last h hr => exact h.settles.skip hr.settles
  | cons h hc _ ih => exact (h.settles.skip hc.settles).append ih

theorem PassesEach.settles (h : c.PassesEach kind d) : Settles others last c [] [] d := by
  cases h with
  | keys h => exact h.settles
  | items h => exact h.settles

theorem Ends.settles (h : c.Ends d) : Settles others last c [] [] d := by
  cases h with
  | semicolon h => exact h.settles
  | implied => exact .nil

theorem MayEnd.settles (h : c.MayEnd d) : Settles others last c [] [] d := by
  cases h with
  | semicolon h => exact h.settles
  | absent => exact .nil

/-- A statement that takes a semicolon is settled where what it is made of is, up to its end. -/
theorem Settles.ends {steps : List Stmt} {stmt : Stmt}
    (h : Settles others last c steps (Piece.statement stmt).children m)
    (hcross : Crosses others c parts m) (he : m.Ends d)
    (hu : c.Reached others last → (Piece.statement stmt).Unbroken (others ++ [last]) := by
      intro _; trivial)
    (hr : stmt.range = c.range d := by rfl)
    (hs : (Piece.statement stmt).steps = steps := by rfl) :
    Settles others last c [stmt] [.statement stmt] d := by
  refine (node (h.skip he.settles) hu hs).step fun hc _ => ?_
  rw [hr]
  exact he.ended hc.choose_spec.along (h hc).1 hcross

/-- Across a label, no line ends in front of it. -/
theorem PassesKeyword.unbroken_jump {kind : JumpKind} (h : c.PassesKeyword kind.keyword m)
    (hl : m.PassesLabel label d) (hc : c.Reached others last) :
    (Piece.statement (.jump (c.range e) kind label)).Unbroken (others ++ [last]) := by
  cases hl with
  | absent => trivial
  | present hl hn =>
    obtain ⟨token, hp, -, rfl⟩ := hl
    rw [← hp.current]
    exact ⟨m.current, h.opensWith hc, rfl, hn⟩

/-- An operator behind its target stands in the line where the target ends. -/
theorem Passes.unbroken_update (ho : m.Passes token d) (h : Stands (.expr target) c m)
    (hk : token.kind.updateOp? = some op) (hn : token.newlineBefore = false)
    (hc : c.Reached others last) :
    (Piece.expression (.update ⟨target.range.start, token.range.stop⟩ op .after target)).Unbroken
      (others ++ [last]) := by
  obtain ⟨read, hc⟩ := hc
  have hbetween := ho.between hc.along h.lays Lays.stay
  have hm : token ∈ others := (h.lays.crosses hc.along).along.mem token (by simp [ho.ahead])
  exact ⟨token, List.mem_append_left _ hm, rfl, hbetween.behind _ (List.mem_singleton_self _), hk,
    hn⟩

end Cursor

open Cursor (Settles)

variable {others : List Token} {last : Token}

/-- A phrase settles its pieces. -/
theorem Stands.settles (h : Stands p c d) : Settles others last c p.steps p.row d := by
  induction h with
  | parenthesized hl h hr ih => exact hl.settles.append (ih.skip hr.settles)
  | parens h ih => exact ih
  | name h | number h | string h | null h | boolean h => exact h.settles_leaf rfl
  | array hl h ih => exact .node (hl.settles.append ih)
  | call h hl ha ih iha => exact .node ((ih.skip hl.settles).append iha)
  | new hn h hl ha ih iha => exact .node (hn.settles.append ((ih.skip hl.settles).append iha))
  | bareNew hn h hl ih => exact .node (hn.settles.append ih)
  | member h hd hp hs ih =>
    exact .node ((ih.skip hd.settles).append (hp.settles_leaf rfl))
  | subscript h hl hi hr ih ihi =>
    exact .node ((ih.skip hl.settles).append (ihi.skip hr.settles))
  | unary ho hk h ih => exact .node (ho.settles.append ih)
  | before ho hk h ih => exact .node (ho.settles.append ih)
  | after h ho hk hn ih => exact .node (ih.skip ho.settles) (ho.unbroken_update h hk hn)
  | binary hl ho hk hr ihl ihr => exact .node ((ihl.skip ho.settles).append ihr)
  | assign ht ha ho hk hv iht ihv => exact .node ((iht.skip ho.settles).append ihv)
  | conditional ht hq hw hc hf iht ihw ihf =>
    exact .node ((iht.skip hq.settles).append ((ihw.skip hc.settles).append ihf))
  | sequence h hc h' hp ih ih' ihp => exact .node ((ih.skip hc.settles).append (ih'.append ihp))
  | functionExpr hf hn hl hp ho hb hr ih =>
    have hbody := ho.settles.append (ih.skip hr.settles)
    exact .node ((hf.settles.append
      ((hn.settles.skip hl.settles).append hp.settles)).append hbody)
  | noParts => exact .nil
  | parts hc h hp ih ihp => exact hc.settles.append (ih.append ihp)
  | noElements h => exact h.settles
  | lastElement hn h hr ih => exact ih.skip hr.settles
  | elements hn h hc he ih ihe => exact (ih.skip hc.settles).append ihe
  | noOption => exact .nil
  | option h ih => exact ih
  | noInitializer => exact .nil
  | initializer ha h ih => exact ha.settles.append ih
  | expression h he ih => exact ih.ends h.lays.crosses he
  | declaration hk hd he ih => exact (hk.settles.append ih).ends (hk.crosses.append hd.lays) he
  | function hf hn hl hp ho hb hr ih =>
    have hbody := ho.settles.append (ih.skip hr.settles)
    have hrest := hp.settles.append hbody
    exact .step (.node (hf.settles.append ((hn.settles.skip hl.settles).append hrest)))
  | ifStmt hk ht hb he iht ihb ihe =>
    exact .step (.node (hk.settles.append (iht.append (ihb.append ihe))))
  | whileStmt hk ht hb iht ihb => exact .step (.node (hk.settles.append (iht.append ihb)))
  | doStmt hk hb hw ht he ihb iht =>
    exact .step (.node (hk.settles.append ((ihb.skip hw.settles).append (iht.skip he.settles))))
  | forStmt hk hl hi hs ht hs' hu hr hb ihi iht ihu ihb =>
    have hinit := hk.settles.append (hl.settles.append (ihi.skip hs.settles))
    have htest := hinit.append (iht.skip hs'.settles)
    exact .step (.node ((htest.append (ihu.skip hr.settles)).append ihb)
      (hk.parted hl hi hs ht hs' hu hr))
  | forEach hk hl hh he h hr hb ihh ih ihb =>
    have hleft := hk.settles.append (hl.settles.append (ihh.skip he.settles))
    exact .step (.node (hleft.append ((ih.skip hr.settles).append ihb)))
  | jump hk hl he =>
    exact (hk.settles.append hl.settles).ends (hk.crosses.append hl.lays) he
      (hk.unbroken_jump hl)
  | bareReturn hk he => exact hk.settles.ends hk.crosses he
  | returnStmt hk hn h he ih =>
    exact (hk.settles.append ih).ends (hk.crosses.append h.lays) he
      (fun hc => ⟨_, hk.opensWith hc, TokenReader.newlineBefore_of_endsStatement hn⟩)
  | throwStmt hk hn h he ih =>
    exact (hk.settles.append ih).ends (hk.crosses.append h.lays) he
      (fun hc => ⟨_, hk.opensWith hc, hn⟩)
  | tryStmt hk hb hh hf hs ihb ihh ihf =>
    exact .step (.node (hk.settles.append (ihb.append (ihh.append ihf))))
  | switchStmt hk hd hl hc hr ihd ihc =>
    exact .step (.node (hk.settles.append ((ihd.skip hl.settles).append (ihc.skip hr.settles))))
  | blockStmt h ih => exact ih.block
  | labeled hn hc hb ih => exact .step (.node ((hn.settles.skip hc.settles).append ih))
  | empty h => exact .step (.node h.settles)
  | debugger hk he => exact hk.settles.ends hk.crosses he
  | withStmt hk ho hb iho ihb => exact .step (.node (hk.settles.append (iho.append ihb)))
  | noStmts => exact .nil
  | stmts h hs ih ihs => exact ih.append ihs
  | noElse => exact .nil
  | orElse hk h ih => exact hk.settles.append ih
  | lastDeclarator hn hi ih => exact .node (hn.settles.append ih)
  | declarators hn hi hc hd ihi ihd =>
    have hfirst := hn.settles.append ihi
    exact (Settles.node hfirst).append (hc.settles.append ihd)
  | headExpression h ih => exact .node ih
  | headDeclaration hk hd ih => exact .node (hk.settles.append ih)
  | noInit => exact .nil
  | init h ih => exact ih
  | block hl h hr ih => exact .node (hl.settles.append (ih.skip hr.settles))
  | noParameter => exact .nil
  | parameter h ih => exact ih
  | noHandler => exact .nil
  | handler hk hp hb ihp ihb => exact .node (hk.settles.append (ihp.append ihb))
  | noFinalizer => exact .nil
  | finalizer hk hb ih => exact hk.settles.append ih
  | defaultTest hk => exact hk.settles
  | test hk h ih => exact hk.settles.append ih
  | noClauses => exact .nil
  | clauses ht hc hb hs iht ihb ihs =>
    exact (Settles.node ((iht.skip hc.settles).append ihb)).append ihs

theorem Cursor.reached_of_tokens (h : tokens source = .ok (others ++ [last])) :
    Cursor.Reached others last ⟨others, last, 0⟩ :=
  ⟨[], Cursor.over_of_tokens h, rfl, rfl⟩

theorem Script.mem_steps_or_heads {script : Script} (h : .statement stmt ∈ script.pieces) :
    stmt ∈ script.steps ∨ ∃ piece ∈ script.pieces, stmt ∈ piece.heads := by
  obtain ⟨top, ht, hp⟩ := List.mem_flatMap.1 h
  rcases Piece.exists_parent hp with rfl | ⟨parent, hparent, hchild⟩
  · obtain ⟨_, hbody, ⟨⟩⟩ := List.mem_map.1 ht
    exact .inl (List.mem_append_left _ hbody)
  · have hm : parent ∈ script.pieces := List.mem_flatMap.2 ⟨top, ht, hparent⟩
    rcases Piece.statement_mem_children.1 hchild with hstep | hhead
    · exact .inl (List.mem_append_right _ (List.mem_flatMap.2 ⟨parent, hm, hstep⟩))
    · exact .inr ⟨parent, hm, hhead⟩

/-- The end of a statement is implied only in front of a closing brace, of the end of the file and of
a new line, but for the statement in the head of a `for`, which has no end. A line ends nowhere
inside what must stand in one line, and the semicolons in the head of a `for` are never implied. -/
theorem Script.parse_ends (h : Script.parse source = .ok script) :
    ∃ list, tokens source = .ok list ∧
      (∀ stmt, .statement stmt ∈ script.pieces →
        stmt ∈ script.steps ∨ ∃ piece ∈ script.pieces, stmt ∈ piece.heads) ∧
      (∀ stmt ∈ script.steps, stmt.takesEnd = true → stmt.range.Ended list) ∧
      ∀ piece ∈ script.pieces, piece.Unbroken list := by
  obtain ⟨others, last, d, ht, -, -, hs, -⟩ := exists_stands_of_parse h
  obtain ⟨-, hbody, hpieces⟩ := hs.settles (Cursor.reached_of_tokens ht)
  refine ⟨others ++ [last], ht, fun _ => mem_steps_or_heads, ?_,
    fun piece hm => (hpieces piece hm).unbroken⟩
  refine List.forall_mem_append.2 ⟨hbody, List.forall_mem_flatMap.2 ?_⟩
  exact fun piece hm => (hpieces piece hm).ended

/-- Statements that end in front of a brace, of a new line and of the end of the file, in a clause, a
labeled body, a branch and a function in an expression. The only semicolons are those in the head of
the first loop. -/
def lineEnds : String :=
  "l: for (var f = function () \x7b return i++ \x7d; i;) \x7b continue l \x7d\n" ++
    "switch (a) \x7b case b: if (c) throw d\n else debugger \x7d"

theorem Script.parse_ends_lineEnds :
    ∃ script list, Script.parse lineEnds = .ok script ∧ tokens lineEnds = .ok list ∧
      (∀ stmt ∈ script.steps, stmt.takesEnd = true → stmt.range.Ended list) ∧
      (∀ piece ∈ script.pieces, piece.Unbroken list) ∧
      (tokens lineEnds).toOption.map (fun list =>
        (list.filter (·.kind = .symbol .semicolon)).map (·.range.start)) = some [42, 45] := by
  obtain ⟨script, hs⟩ : ∃ script, Script.parse lineEnds = .ok script :=
    exists_ok_of_isOk (by decide +kernel)
  obtain ⟨list, ht, -, hended, hunbroken⟩ := parse_ends hs
  exact ⟨script, list, hs, ht, hended, hunbroken, by decide +kernel⟩

end FlowLint
