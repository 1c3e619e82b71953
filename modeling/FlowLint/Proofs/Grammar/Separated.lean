import FlowLint.Proofs.Grammar.Balanced
import FlowLint.Proofs.Grammar.Nesting
import FlowLint.Proofs.Grammar.StayStatement

namespace FlowLint
set_option autoImplicit true

structure Token.Between (token : Token) (left right : List Piece) : Prop where
  behind : ∀ piece ∈ left, piece.range.stop ≤ token.range.start
  before : ∀ piece ∈ right, token.range.stop ≤ piece.range.start

/-- Some tokens leave nothing open, and no word `in` among them stands outside of brackets but as a
property name. -/
structure NoFreeIn (head : List Token) : Prop where
  outside : Outside head
  enclosed : ∀ read word rest, head = read ++ word :: rest → word.kind = .keyword .in →
    ¬ Outside read

/-- Some tokens spell a phrase in front of others. -/
def Phrase.SpelledBy (phrase : Phrase) (read rest : List Token) : Prop :=
  ∃ c d, Stands phrase c d ∧ c.ahead = read ++ rest ∧ d.ahead = rest

/-- In the `for` that begins at a byte, some tokens behind the parenthesis spell a phrase, and a
separator stands behind them. -/
def Heads (others : List Token) (start : Nat) (first : Phrase) (head : List Token)
    (separator : Token) : Prop :=
  ∃ before word paren after, others = before ++ word :: paren :: (head ++ separator :: after) ∧
    word.kind = .keyword .for ∧ word.range.start = start ∧ paren.kind = .symbol .leftParen ∧
    first.SpelledBy head (separator :: after)

def EachKind.Joins : EachKind → Token → Prop
  | .keys, token => token.kind = .keyword .in
  | .items, token => token.isOf = true

namespace Piece

/-- A token separates the first part of the head of a `for` from the rest, and no word `in` stands
outside of brackets between `for (` and the token. -/
def SeparatedBy (others : List Token) (separator : Token) : Piece → Prop
  | statement (.forEach range kind left right body) =>
    ∃ head, Heads others range.start (.head left) head separator ∧ NoFreeIn head ∧
      kind.Joins separator ∧
      separator.Between [.statement left] [.expression right, .statement body]
  | statement (.forStmt range init test update body) =>
    ∃ head, Heads others range.start (.init init) head separator ∧ NoFreeIn head ∧
      separator.kind = .symbol .semicolon ∧ separator.Between (init.toList.map .statement)
        (test.toList.map .expression ++ update.toList.map .expression ++ [.statement body])
  | _ => False

def isFor : Piece → Bool
  | statement (.forEach ..) | statement (.forStmt ..) => true
  | _ => false

/-- A piece has a separator if it is a `for`. -/
def Separates (others : List Token) (piece : Piece) : Prop :=
  piece.isFor = true → ∃ separator, piece.SeparatedBy others separator

/-- The loops in a row of pieces have separators. -/
def Separated (others : List Token) (row : List Piece) : Prop :=
  ∀ piece ∈ row, ∀ part ∈ piece.pieces, part.Separates others

namespace Separated

variable {others : List Token} {piece : Piece} {row row' : List Piece}

theorem nil : Separated others [] :=
  nofun

theorem append (h : Separated others row) (h' : Separated others row') :
    Separated others (row ++ row') :=
  List.forall_mem_append.2 ⟨h, h'⟩

theorem cons (h : Separated others piece.children) (hp : piece.Separates others) :
    Separated others [piece] := by
  have hall : ∀ part ∈ piece.pieces, part.Separates others := by
    rw [pieces_eq, List.forall_mem_cons, List.forall_mem_flatMap]
    exact ⟨hp, h⟩
  exact List.forall_mem_singleton.2 hall

theorem node (h : Separated others piece.children) (hp : piece.isFor = false) :
    Separated others [piece] :=
  h.cons fun hfor => nomatch hp.symm.trans hfor

theorem children (h : Separated others [piece]) : Separated others piece.children := by
  intro child hc part hp
  exact h piece (List.mem_singleton_self _) part (pieces_subset_of_child hc hp)

theorem identifier (id : Identifier) : Separated others [.identifier id] :=
  .node .nil rfl

end Separated

end Piece

open Piece (Separated)

namespace Cursor

/-- The tokens ahead are what remains of a source. -/
structure Remains (others : List Token) (last : Token) (c : Cursor) : Prop
    extends Cursor.Over others last c where
  suffix : c.ahead <:+ others

variable {others : List Token} {last : Token} {c d : Cursor}

theorem Remains.advance (h : c.Remains others last) : c.advance.Remains others last := by
  refine ⟨h.toOver.advance, ?_⟩
  obtain ⟨ahead, endOfFile, stop⟩ := c
  cases ahead with
  | nil => exact h.suffix
  | cons token ahead => exact (List.suffix_cons token ahead).trans h.suffix

end Cursor

namespace TokenReader

variable {others : List Token} {last : Token} {α β : Type} {row : α → List Piece}
  {row' : β → List Piece} {x y : TokenReader α} {kind : TokenKind}

/-- From what remains of a source, a reader reads pieces whose loops have separators. -/
def Builds (others : List Token) (last : Token) (row : α → List Piece) (x : TokenReader α) : Prop :=
  ∀ c, Cursor.Remains others last c → ∀ a d, x c = .ok (a, d) →
    d.Remains others last ∧ Separated others (row a)

namespace Builds

theorem of_yields (h : ∀ c, Cursor.Remains others last c →
    x.Yields c fun a d => d.Remains others last ∧ Separated others (row a)) :
    Builds others last row x :=
  fun c hc a d he => (h c hc a d he).2

theorem yields {c : Cursor} (h : Builds others last row x) (hc : c.Remains others last) :
    x.Yields c fun a d => d.Remains others last ∧ Separated others (row a) := by
  intro a d he
  have hd := h c hc a d he
  exact ⟨hd.1.closed, hd⟩

protected theorem pure {a : α} (h : Separated others (row a)) :
    Builds others last row (pure a : TokenReader α) := by
  intro c hc b d he
  cases he
  exact ⟨hc, h⟩

protected theorem throw (error : ParseError) :
    Builds others last row (throw error : TokenReader α) :=
  fun _ _ _ _ he => nomatch he

protected theorem bind {f : α → TokenReader β} (h : Builds others last row x)
    (hf : ∀ a, Separated others (row a) → Builds others last row' (f a)) :
    Builds others last row' (x >>= f) := by
  intro c hc b d he
  obtain ⟨⟨a, m⟩, ha, hb⟩ := bind_eq_ok.1 he
  obtain ⟨hm, hrow⟩ := h c hc a m ha
  exact hf a hrow m hm b d hb

protected theorem map {f : α → β} (h : Builds others last row x)
    (hf : ∀ a, Separated others (row a) → Separated others (row' (f a))) :
    Builds others last row' (f <$> x) := by
  rw [map_eq_pure_bind]
  exact .bind h fun a ha => .pure (hf a ha)

protected theorem ite {p : Prop} [Decidable p] (hx : Builds others last row x)
    (hy : Builds others last row y) : Builds others last row (if p then x else y) := by
  split
  · exact hx
  · exact hy

theorem ite_bind {p : Prop} [Decidable p] {f : α → TokenReader β} {r : α → List Piece}
    (hx : Builds others last r x) (hy : Builds others last r y)
    (hf : ∀ a, Separated others (r a) → Builds others last row' (f a)) :
    Builds others last row' (if p then x >>= f else y >>= f) :=
  .ite (.bind hx hf) (.bind hy hf)

protected theorem get {f : Cursor → TokenReader β} (h : ∀ c, Builds others last row' (f c)) :
    Builds others last row' (get >>= f) :=
  fun c hc => h c c hc

protected theorem peek {f : Token → TokenReader β}
    (h : ∀ token, Builds others last row' (f token)) :
    Builds others last row' (peek >>= f) :=
  fun c hc => h c.current c hc

protected theorem bump {f : Token → TokenReader β}
    (h : ∀ token, Builds others last row' (f token)) :
    Builds others last row' (bump >>= f) :=
  fun c hc => h c.current c.advance hc.advance

protected theorem rangeFrom {f : Range → TokenReader β}
    (h : ∀ range, Builds others last row' (f range)) :
    Builds others last row' (rangeFrom start >>= f) :=
  .get fun _ => h _

protected theorem isAt {f : Bool → TokenReader β} (h : ∀ found, Builds others last row' (f found)) :
    Builds others last row' (isAt kind >>= f) := by
  have hat : Builds others last (fun _ => []) (isAt kind) := .peek fun _ => .pure .nil
  exact .bind hat fun found _ => h found

protected theorem eat {f : Bool → TokenReader β} (h : ∀ eaten, Builds others last row' (f eaten)) :
    Builds others last row' (eat kind >>= f) := by
  have heat : Builds others last (fun _ => []) (eat kind) :=
    .isAt fun _ => .ite (.bump fun _ => .pure .nil) (.pure .nil)
  exact .bind heat fun eaten _ => h eaten

protected theorem unexpected (expected : Expected) :
    Builds others last row (unexpected expected : TokenReader α) :=
  .peek fun _ => .throw _

theorem expect (kind : TokenKind) (expected : Expected) :
    Builds others last (fun _ => []) (expect kind expected) := by
  have hbump : Builds others last (fun _ => []) TokenReader.bump := by
    intro c hc token d he
    cases he
    exact ⟨hc.advance, .nil⟩
  exact .isAt fun _ => .ite hbump (.unexpected expected)

protected theorem symbol {s : Symbol} {f : Token → TokenReader β}
    (h : ∀ token, Builds others last row' (f token)) :
    Builds others last row' (symbol s >>= f) :=
  .bind (expect _ _) fun token _ => h token

protected theorem keyword {k : Keyword} {f : Token → TokenReader β}
    (h : ∀ token, Builds others last row' (f token)) :
    Builds others last row' (keyword k >>= f) :=
  .bind (expect _ _) fun token _ => h token

protected theorem identifier : Builds others last (fun id => [.identifier id]) identifier :=
  .bind (expect _ _) fun token _ => .pure (.identifier ⟨token.text, token.range⟩)

protected theorem semicolon {f : Unit → TokenReader β} (h : Builds others last row' (f ())) :
    Builds others last row' (semicolon >>= f) := by
  have hsemicolon : Builds others last (fun _ => []) semicolon :=
    .eat fun _ => .ite (.pure .nil) (.peek fun _ => .ite (.pure .nil) (.unexpected _))
  exact .bind hsemicolon fun _ _ => h

end Builds

end TokenReader

end FlowLint
