import FlowLint.Proofs.Grammar.Reader
import FlowLint.Proofs.Token.Place
import FlowLint.Proofs.Tree.Piece

namespace FlowLint
set_option autoImplicit true

/-- A range goes from the start of one of the tokens to the end of one, and is not empty. -/
structure Range.Spans (range : Range) (list : List Token) : Prop where
  nonempty : range.start < range.stop
  start : ∃ token ∈ list, token.range.start = range.start
  stop : ∃ token ∈ list, token.range.stop = range.stop

namespace Piece

/-- Pieces one behind the other inside a range. -/
structure Row (outer : Range) (row : List Piece) : Prop where
  inside : ∀ piece ∈ row, outer.start ≤ piece.range.start ∧ piece.range.stop ≤ outer.stop
  apart : row.Pairwise fun left right => left.range.stop ≤ right.range.start

/-- A piece spans tokens, and its children stand in it one behind the other. -/
structure Placed (list : List Token) (piece : Piece) : Prop where
  spans : piece.range.Spans list
  row : Row piece.range piece.children

/-- A piece and all pieces in it are placed, its loops over a subject have plain heads, and its
other `for`s begin in front of what is in them. -/
def Laid (list : List Token) (piece : Piece) : Prop :=
  ∀ part ∈ piece.pieces, part.Placed list ∧ part.HasPlainHead ∧ part.OpensFirst

variable {list : List Token} {piece other : Piece} {outer inner : Range} {row row' : List Piece}

theorem laid_iff : piece.Laid list ↔
    (piece.Placed list ∧ piece.HasPlainHead ∧ piece.OpensFirst) ∧
      ∀ child ∈ piece.children, child.Laid list := by
  rw [Laid, pieces_eq, List.forall_mem_cons, List.forall_mem_flatMap]
  exact Iff.rfl

theorem Laid.spans (h : piece.Laid list) : piece.range.Spans list :=
  (laid_iff.1 h).1.1.spans

/-- Only the range and the children matter, and the head of a loop. -/
theorem Laid.congr (h : piece.Laid list) (hr : other.range = piece.range)
    (hc : other.children = piece.children) (hp : other.HasPlainHead ∧ other.OpensFirst) :
    other.Laid list := by
  obtain ⟨⟨hplaced, -⟩, hchildren⟩ := laid_iff.1 h
  apply laid_iff.2
  rw [hc]
  exact ⟨⟨⟨hr ▸ hplaced.spans, hr ▸ hc ▸ hplaced.row⟩, hp⟩, hchildren⟩

namespace Row

theorem nil : Row outer [] :=
  ⟨nofun, .nil⟩

theorem widen (h : Row inner row) (hs : outer.start ≤ inner.start)
    (he : inner.stop ≤ outer.stop) : Row outer row := by
  constructor
  · intro piece hm
    obtain ⟨hstart, hstop⟩ := h.inside piece hm
    exact ⟨Nat.le_trans hs hstart, Nat.le_trans hstop he⟩
  · exact h.apart

theorem sublist (h : Row outer row) (hs : row'.Sublist row) : Row outer row' :=
  ⟨fun piece hm => h.inside piece (hs.subset hm), h.apart.sublist hs⟩

theorem append (h : Row ⟨a, b⟩ row) (h' : Row ⟨c, d⟩ row') (hac : a ≤ c) (hbc : b ≤ c)
    (hbd : b ≤ d) : Row ⟨a, d⟩ (row ++ row') := by
  have hleft : Row ⟨a, d⟩ row := h.widen (Nat.le_refl _) hbd
  have hright : Row ⟨a, d⟩ row' := h'.widen hac (Nat.le_refl _)
  constructor
  · rw [List.forall_mem_append]
    exact ⟨hleft.inside, hright.inside⟩
  · apply List.pairwise_append.2
    refine ⟨h.apart, h'.apart, ?_⟩
    intro left hl right hr
    have hstop := (h.inside left hl).2
    have hstart := (h'.inside right hr).1
    dsimp only at hstop hstart
    omega

theorem head_le (h : Row outer row) (hl : ∀ piece ∈ row, piece.Laid list)
    (hf : piece ∈ row.head?) : ∀ other ∈ row, piece.range.start ≤ other.range.start := by
  obtain ⟨rest, rfl⟩ := List.head?_eq_some_iff.1 hf
  have hne := (hl piece (List.mem_cons_self ..)).spans.nonempty
  rw [List.forall_mem_cons]
  refine ⟨Nat.le_refl _, fun other hm => ?_⟩
  have hapart := (List.pairwise_cons.1 h.apart).1 other hm
  omega

theorem le_getLast (h : Row outer row) (hl : ∀ piece ∈ row, piece.Laid list)
    (hf : piece ∈ row.getLast?) : ∀ other ∈ row, other.range.stop ≤ piece.range.stop := by
  obtain ⟨rest, rfl⟩ := List.getLast?_eq_some_iff.1 hf
  have hne := (hl piece (by simp)).spans.nonempty
  rw [List.forall_mem_append]
  refine ⟨fun other hm => ?_, by simp⟩
  have hapart := (List.pairwise_append.1 h.apart).2.2 other hm piece (by simp)
  omega

end Row

end Piece

namespace Cursor

/-- The tokens ahead are among those of a list, and follow each other. -/
structure Along (c : Cursor) (list : List Token) : Prop where
  mem : ∀ token ∈ c.ahead, token ∈ list
  follow : c.endOfFile.Follow c.stop c.ahead

theorem Along.stop_le {c : Cursor} (h : c.Along list) : c.stop ≤ c.current.range.start := by
  obtain ⟨ahead, last, stop⟩ := c
  cases ahead with
  | nil => exact h.follow
  | cons token ahead => exact h.follow.1

/-- The tokens from one cursor up to another hold a row of pieces. -/
structure Holds (list : List Token) (c : Cursor) (parts : List Piece) (d : Cursor) : Prop where
  along : d.Along list
  spans : (c.range d).Spans list
  row : Piece.Row (c.range d) parts
  laid : ∀ piece ∈ parts, piece.Laid list

/-- From one cursor to the next across at least one token, and across a row of pieces. -/
def Crosses (list : List Token) (c : Cursor) (parts : List Piece) (d : Cursor) : Prop :=
  c.Along list → Holds list c parts d

/-- From one cursor to the next across a row of pieces, or nowhere. -/
inductive Lays (list : List Token) (c : Cursor) : List Piece → Cursor → Prop
  | stay : Lays list c [] c
  | cross (h : Crosses list c parts d) : Lays list c parts d

variable {list : List Token} {token : Token} {parts parts' : List Piece} {piece other : Piece}
  {c m d : Cursor} {start stop : Nat}

theorem Lays.crosses (h : Lays list c (piece :: parts) d) : Crosses list c (piece :: parts) d := by
  cases h with
  | cross h => exact h

namespace Holds

/-- What starts with the tokens or with the first piece starts in front of all the pieces. -/
theorem starts (h : Holds list c parts d) (hs : start = c.current.range.start ∨
      ∃ first ∈ parts.head?, start = first.range.start) :
    (∃ token ∈ list, token.range.start = start) ∧ c.current.range.start ≤ start ∧
      ∀ part ∈ parts, start ≤ part.range.start := by
  rcases hs with rfl | ⟨first, hf, rfl⟩
  · exact ⟨h.spans.start, Nat.le_refl _, fun part hm => (h.row.inside part hm).1⟩
  · have hm := List.mem_of_mem_head? hf
    exact ⟨(h.laid first hm).spans.start, (h.row.inside first hm).1, h.row.head_le h.laid hf⟩

/-- What ends with the tokens or with the last piece ends behind all the pieces. -/
theorem stops (h : Holds list c parts d) (he : stop = d.stop ∨
      ∃ last ∈ parts.getLast?, stop = last.range.stop) :
    (∃ token ∈ list, token.range.stop = stop) ∧ stop ≤ d.stop ∧
      ∀ part ∈ parts, part.range.stop ≤ stop := by
  rcases he with rfl | ⟨last, hl, rfl⟩
  · exact ⟨h.spans.stop, Nat.le_refl _, fun part hm => (h.row.inside part hm).2⟩
  · have hm := List.mem_of_getLast? hl
    exact ⟨(h.laid last hm).spans.stop, (h.row.inside last hm).2, h.row.le_getLast h.laid hl⟩

theorem nonempty (h : Holds list c parts d) (hs : start = c.current.range.start ∨
      ∃ first ∈ parts.head?, start = first.range.start)
    (he : stop = d.stop ∨ ∃ last ∈ parts.getLast?, stop = last.range.stop) : start < stop := by
  cases parts with
  | nil =>
    obtain rfl : start = c.current.range.start := by simpa using hs
    obtain rfl : stop = d.stop := by simpa using he
    exact h.spans.nonempty
  | cons part parts =>
    have hm : part ∈ part :: parts := List.mem_cons_self ..
    have hpart := (h.laid part hm).spans.nonempty
    have hleft := (h.starts hs).2.2 part hm
    have hright := (h.stops he).2.2 part hm
    omega

end Holds

namespace Crosses

theorem join (h : Crosses list c parts m) (h' : Crosses list m parts' d) :
    Crosses list c (parts ++ parts') d := by
  intro hc
  obtain ⟨hm, hspans, hrow, hlaid⟩ := h hc
  obtain ⟨hd, hspans', hrow', hlaid'⟩ := h' hm
  have hne := hspans.nonempty
  have hne' := hspans'.nonempty
  have hstop := hm.stop_le
  dsimp only [range] at hne hne'
  have hlt : c.current.range.start < d.stop := by omega
  refine ⟨hd, ⟨hlt, hspans.start, hspans'.stop⟩, ?_, List.forall_mem_append.2 ⟨hlaid, hlaid'⟩⟩
  apply hrow.append hrow' <;> omega

theorem append (h : Crosses list c parts m) (h' : Lays list m parts' d) :
    Crosses list c (parts ++ parts') d := by
  cases h' with
  | stay => rwa [List.append_nil]
  | cross h' => exact h.join h'

theorem skip (h : Crosses list c parts m) (h' : Lays list m [] d) : Crosses list c parts d := by
  rw [← List.append_nil parts]
  exact h.append h'

/-- A piece is laid where its children are, if it starts with the tokens or with its first child
and ends with the tokens or with its last child. -/
theorem wrap (h : Crosses list c piece.children d)
    (hs : piece.range.start = c.current.range.start ∨
      ∃ first ∈ piece.children.head?, piece.range.start = first.range.start)
    (he : piece.range.stop = d.stop ∨
      ∃ last ∈ piece.children.getLast?, piece.range.stop = last.range.stop)
    (hp : c.Along list → piece.HasPlainHead ∧ piece.OpensFirst := by intro _; trivial) :
    Crosses list c [piece] d := by
  intro hc
  have hh := h hc
  obtain ⟨hstart, hfront, hleft⟩ := hh.starts hs
  obtain ⟨hstop, hback, hright⟩ := hh.stops he
  have hne := hh.nonempty hs he
  have hplaced : piece.Placed list :=
    ⟨⟨hne, hstart, hstop⟩, ⟨fun child hm => ⟨hleft child hm, hright child hm⟩, hh.row.apart⟩⟩
  have hlaid : piece.Laid list := Piece.laid_iff.2 ⟨⟨hplaced, hp hc⟩, hh.laid⟩
  have hrow : Piece.Row (c.range d) [piece] :=
    ⟨List.forall_mem_singleton.2 ⟨hfront, hback⟩, List.pairwise_singleton ..⟩
  exact ⟨hh.along, hh.spans, hrow, List.forall_mem_singleton.2 hlaid⟩

theorem whole (h : Crosses list c piece.children d) (hr : piece.range = c.range d)
    (hp : c.Along list → piece.HasPlainHead ∧ piece.OpensFirst := by intro _; trivial) :
    Crosses list c [piece] d :=
  h.wrap (.inl (by rw [hr]; rfl)) (.inl (by rw [hr]; rfl)) hp

theorem replace (h : Crosses list c [piece] d) (hr : other.range = piece.range)
    (hc : other.children = piece.children)
    (hp : other.HasPlainHead ∧ other.OpensFirst := by trivial) : Crosses list c [other] d := by
  intro hal
  obtain ⟨hd, hspans, hrow, hlaid⟩ := h hal
  refine ⟨hd, hspans, ⟨?_, List.pairwise_singleton ..⟩, ?_⟩
  · rw [List.forall_mem_singleton, hr]
    exact hrow.inside piece (List.mem_singleton_self _)
  · rw [List.forall_mem_singleton]
    exact (hlaid piece (List.mem_singleton_self _)).congr hr hc hp

end Crosses

/-- There is a token between the pieces and the next cursor. -/
theorem Lays.next (h : Lays list c parts m) (h' : Crosses list m [] d) :
    Crosses list c parts d := by
  cases h with
  | stay => exact h'
  | cross h => exact h.skip (.cross h')

namespace Passes

theorem range_eq (h : c.Passes token d) : token.range = c.range d := by
  rw [range, h.current, h.stop]

theorem crosses (h : c.Passes token d) : Crosses list c [] d := by
  intro hc
  obtain ⟨hmem, hfollow⟩ := hc
  rw [h.ahead] at hmem hfollow
  obtain ⟨htoken, hahead⟩ := List.forall_mem_cons.1 hmem
  have hd : d.Along list := ⟨hahead, by rw [h.stop, h.endOfFile]; exact hfollow.2.2⟩
  have hspans : (c.range d).Spans list := by
    rw [← h.range_eq]
    exact ⟨hfollow.2.1, ⟨token, htoken, rfl⟩, ⟨token, htoken, rfl⟩⟩
  exact ⟨hd, hspans, .nil, nofun⟩

theorem leaf (h : c.Passes token d) (hr : piece.range = token.range) (hc : piece.children = [])
    (hp : c.Along list → piece.HasPlainHead ∧ piece.OpensFirst := by intro _; trivial) :
    Crosses list c [piece] d := by
  have hnone : Crosses list c piece.children d := hc ▸ h.crosses
  exact hnone.whole (hr.trans h.range_eq) hp

theorem identifier (h : c.Passes token d) :
    Crosses list c [.identifier ⟨token.text, token.range⟩] d :=
  h.leaf rfl rfl

end Passes

theorem PassesSymbol.crosses (h : c.PassesSymbol s d) : Crosses list c [] d := by
  obtain ⟨token, hp, -⟩ := h
  exact hp.crosses

theorem PassesSymbol.lays (h : c.PassesSymbol s d) : Lays list c [] d :=
  .cross h.crosses

theorem PassesKeyword.crosses (h : c.PassesKeyword k d) : Crosses list c [] d := by
  obtain ⟨token, hp, -⟩ := h
  exact hp.crosses

theorem PassesKeyword.start_lt (h : c.PassesKeyword k m) (hr : Crosses list m parts d)
    (hc : c.Along list) : ∀ part ∈ parts, c.current.range.start < part.range.start := by
  intro part hm
  obtain ⟨halong, hspans, -, -⟩ := h.crosses hc
  have hne := hspans.nonempty
  have hstop := halong.stop_le
  have hinside := ((hr halong).row.inside part hm).1
  dsimp only [range] at hne hinside
  omega

theorem PassesName.crosses (h : c.PassesName name d) : Crosses list c [.identifier name] d := by
  obtain ⟨token, hp, -, rfl⟩ := h
  exact hp.identifier

theorem PassesFunctionName.lays (h : c.PassesFunctionName name d) :
    Lays list c (name.toList.map .identifier) d := by
  cases h with
  | absent => exact .stay
  | present h => exact .cross h.crosses

theorem PassesLabel.lays (h : c.PassesLabel label d) :
    Lays list c (label.toList.map .identifier) d := by
  cases h with
  | absent => exact .stay
  | present h => exact .cross h.crosses

theorem PassesParameters.crosses (h : PassesParameters c names d) :
    Crosses list c (names.map .identifier) d := by
  induction h with
  | nil h => exact h.crosses
  | last h hr => exact h.crosses.skip hr.lays
  | cons h hc _ ih => exact (h.crosses.skip hc.lays).join ih

theorem PassesEach.crosses (h : c.PassesEach kind d) : Crosses list c [] d := by
  cases h with
  | keys h => exact h.crosses
  | items h => exact h.crosses

theorem Ends.lays (h : c.Ends d) : Lays list c [] d := by
  cases h with
  | semicolon h => exact h.lays
  | implied => exact .stay

theorem MayEnd.lays (h : c.MayEnd d) : Lays list c [] d := by
  cases h with
  | semicolon h => exact h.lays
  | absent => exact .stay

end Cursor

/-- A cursor over the tokens of a source, wherever it stands. -/
structure Cursor.Over (others : List Token) (last : Token) (c : Cursor) : Prop where
  closed : c.Closed
  along : c.Along others
  endOfFile : c.endOfFile = last

namespace Cursor.Over

variable {others read : List Token} {last : Token} {c d : Cursor}

theorem advance (h : c.Over others last) : c.advance.Over others last := by
  by_cases hk : c.current.kind = .endOfFile
  · obtain ⟨_ | ⟨token, ahead⟩, _, _⟩ := c
    · exact h
    · exact absurd hk (h.closed.ahead token (List.mem_cons_self ..))
  · have hp := h.closed.passes hk
    exact ⟨hp.closed h.closed, (hp.crosses h.along).along, hp.endOfFile.trans h.endOfFile⟩

theorem excerpt (h : Cursor.Over others last ⟨others, last, 0⟩)
    (hr : read <:+: others) : Cursor.Over read last ⟨read, last, 0⟩ :=
  ⟨⟨h.closed.endOfFile, h.closed.text, fun token hm => h.closed.ahead token (hr.subset hm)⟩,
    ⟨fun _ hm => hm, h.along.follow.sublist hr.sublist⟩, rfl⟩

end Cursor.Over

end FlowLint
