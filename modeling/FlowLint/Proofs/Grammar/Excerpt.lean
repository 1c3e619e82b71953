import FlowLint.Proofs.Grammar.Repeated
import FlowLint.Proofs.Grammar.RereadExpression
import FlowLint.Proofs.Grammar.Tracks
import FlowLint.Proofs.Tree.Throughout

/-!
Expressions that can be read on their own. An expression inside another one is read by a production
that binds tighter; in front of a closing parenthesis the looser ones have nothing to add.
-/
namespace FlowLint
set_option autoImplicit true

open TokenReader (Again Reads Resumes)

theorem TokenKind.eq_of_isClosing {kind : TokenKind} (h : kind.isClosing = true) :
    kind = .symbol .rightParen ∨ kind = .endOfFile := by
  rwa [isClosing, Bool.or_eq_true, beq_iff_eq, beq_iff_eq] at h

theorem TokenKind.stops_of_isClosing {kind : TokenKind} (noIn : Bool)
    (h : kind.isClosing = true) : kind.Stops noIn := by
  rcases eq_of_isClosing h with rfl | rfl
  · exact stops_rightParen
  · exact ⟨rfl, rfl, rfl, nofun, rfl⟩

theorem TokenKind.ne_of_isClosing {kind kind' : TokenKind} (h : kind.isClosing = true)
    (h' : kind'.isClosing = false) : kind ≠ kind' := by
  rintro rfl
  exact Bool.false_ne_true (h'.symm.trans h)

/-- No operator in front of an operand. -/
structure TokenKind.Leads (kind : TokenKind) : Prop where
  unary : kind.unaryOp? = none
  update : kind.updateOp? = none

namespace TokenReader

/-- In front of a token that no expression goes on with, a reader reads a result from some tokens. -/
def Concludes (x : TokenReader α) (read : List Token) (start : Nat) (a : α) : Prop :=
  ∀ e : Cursor, e.Closed → e.stop = Token.stopOf read start → e.current.kind.isClosing = true →
    Reads x (e.behind read start) e (· = a)

variable {x y : TokenReader α} {c d : Cursor} {read : List Token} {a : α}

theorem Resumes.concludes (h : Resumes .closing x y c read d)
    (hy : ∀ e : Cursor, e.current.kind.isClosing = true → Reads y e e (· = a)) :
    Concludes x read c.stop a := by
  intro e he hs hk hclosed
  obtain ⟨-, a', ha, rfl⟩ := hy e hk he
  exact ⟨he, _, (h.resume e he (hs.trans h.stop.symm) (.inr hk)).trans ha, rfl⟩

theorem Again.concludes (h : Again .closing x c read a d) : Concludes x read c.stop a :=
  Resumes.concludes h fun _ _ => .pure rfl

end TokenReader

open TokenReader (Concludes)

namespace Grammar

variable {read : List Token} {start : Nat} {expr : Expr}

/-- In front of a closing parenthesis there is no word `in` at which a reading with `noIn` stops. -/
theorem lone_expression (h : Concludes (expression Production.parse noIn) read start expr) :
    Concludes (Production.expression false).parse read start expr := by
  intro e he hs hk hc
  obtain ⟨-, _, hread, rfl⟩ := h e he hs hk hc
  have hparse : (Production.expression noIn).parse (e.behind read start) = .ok (_, e) :=
    (Production.parse_eq_read (p := .expression noIn) hc trivial).trans hread
  refine ⟨he, _, ?_, rfl⟩
  cases noIn with
  | false => exact hparse
  | true =>
    rcases Production.tracks_expression hc with hsame | ⟨a, d, hforks⟩
    · rw [← hsame]
      exact hparse
    · cases hparse.symm.trans hforks.parse
      exact absurd hforks.atIn (TokenKind.ne_of_isClosing hk rfl)

theorem lone_assignment (h : Concludes (assignment Production.parse noIn) read start expr) :
    Concludes (Production.expression false).parse read start expr :=
  lone_expression fun e he hs hk =>
    reads_expression (h e he hs hk) (TokenKind.ne_of_isClosing hk rfl)

theorem lone_conditional (h : Concludes (conditional Production.parse noIn) read start expr) :
    Concludes (Production.expression false).parse read start expr :=
  lone_assignment fun e he hs hk =>
    reads_assignment (h e he hs hk) (TokenKind.stops_of_isClosing noIn hk).assign

theorem lone_binary (h : Concludes (binary Production.parse 0 noIn) read start expr) :
    Concludes (Production.expression false).parse read start expr :=
  lone_conditional fun e he hs hk =>
    reads_conditional (h e he hs hk) (TokenKind.stops_of_isClosing noIn hk).question

theorem lone_unary (h : Concludes (unary Production.parse) read start expr) :
    Concludes (Production.expression false).parse read start expr :=
  lone_binary fun e he hs hk =>
    reads_binary (h e he hs hk) (TokenKind.stops_of_isClosing false hk).binary

theorem lone_postfixUpdate (h : Concludes (postfixUpdate Production.parse) read start expr)
    (hl : ∀ token ∈ read.head?, token.kind.Leads) :
    Concludes (Production.expression false).parse read start expr := by
  apply lone_unary
  intro e he hs hk
  have hleads : (e.behind read start).current.kind.Leads := by
    cases read with
    | nil =>
      change e.current.kind.Leads
      rcases TokenKind.eq_of_isClosing hk with hk | hk
      · rw [hk]
        exact ⟨rfl, rfl⟩
      · rw [hk]
        exact ⟨rfl, rfl⟩
    | cons token read => exact hl token rfl
  exact reads_unary (h e he hs hk) hleads.unary hleads.update

theorem lone_call (h : Concludes (call Production.parse) read start expr)
    (hl : ∀ token ∈ read.head?, token.kind.Leads) :
    Concludes (Production.expression false).parse read start expr :=
  lone_postfixUpdate (fun e he hs hk =>
    reads_postfixUpdate (h e he hs hk) (TokenKind.stops_of_isClosing false hk).update) hl

/-- Behind what a call goes on from there is nothing more. -/
theorem lone_target {b c : Cursor}
    (h : Resumes .closing (call Production.parse) (suffixes Production.parse expr) b read c)
    (hl : b.current.kind.Leads) :
    Concludes (Production.expression false).parse read b.stop expr := by
  apply lone_call
  · exact h.concludes fun e hk =>
      reads_suffixes_stop (TokenKind.stops_of_isClosing false hk).suffix rfl
  · intro token hm
    rw [h.head hm]
    exact hl

end Grammar

namespace Piece

/-- A property holds of some pieces and of all pieces in them. -/
def Everywhere (property : Piece → Prop) (row : List Piece) : Prop :=
  ∀ piece ∈ row, piece.Throughout property

namespace Everywhere

variable {property : Piece → Prop} {piece : Piece} {row row' : List Piece}

theorem nil : Everywhere property [] :=
  nofun

theorem append (h : Everywhere property row) (h' : Everywhere property row') :
    Everywhere property (row ++ row') :=
  List.forall_mem_append.2 ⟨h, h'⟩

theorem node (h : Everywhere property piece.children) (hp : property piece) :
    Everywhere property [piece] := by
  have hall : piece.Throughout property := by
    rw [Throughout, pieces_eq, List.forall_mem_cons, List.forall_mem_flatMap]
    exact ⟨hp, h⟩
  exact List.forall_mem_singleton.2 hall

theorem children (h : Everywhere property [piece]) : Everywhere property piece.children :=
  fun _ hm => (h piece (List.mem_singleton_self _)).child hm

end Everywhere

/-- If a piece is an expression, it can be read on its own from some of the tokens in a row. -/
def Excerpted (others : List Token) : Piece → Prop
  | expression expr => ∃ read start, read <:+: others ∧
      Concludes (Production.expression false).parse read start expr
  | _ => True

/-- The expressions in some pieces can be read on their own. -/
abbrev Quoted (others : List Token) (row : List Piece) : Prop :=
  Everywhere (Excerpted others) row

theorem Quoted.identifiers (ids : List Identifier) : Quoted others (ids.map .identifier) := by
  intro piece hp
  obtain ⟨id, -, rfl⟩ := List.mem_map.1 hp
  exact Everywhere.node .nil trivial _ (List.mem_singleton_self _)

end Piece

open Piece (Quoted)

/-- All expressions in an expression can be read on their own, and the expression can too. -/
abbrev Expr.Quotable (others : List Token) (expr : Expr) : Prop :=
  Quoted others [.expression expr]

abbrev Expr.PartsQuotable (others : List Token) (expr : Expr) : Prop :=
  Quoted others expr.children

abbrev Stmt.Quotable (others : List Token) (stmt : Stmt) : Prop :=
  Quoted others [.statement stmt]

theorem TokenReader.Resumes.isInfix {read : List Token} {x y : TokenReader α}
    (h : Resumes t x y c read d)
    (hc : c.Rests others) : read <:+: others := by
  have hsuffix := hc.suffix
  rw [h.cursor] at hsuffix
  exact List.IsInfix.trans (List.prefix_append read d.ahead).isInfix hsuffix.isInfix

/-- An expression whose parts can be read on their own can be too, as the production reads it. -/
theorem TokenReader.Resumes.quoted {read : List Token} {x y : TokenReader Expr}
    (h : Resumes t x y c read d)
    (hc : c.Rests others) (hp : expr.PartsQuotable others)
    (hx : Concludes (Production.expression false).parse read c.stop expr) :
    expr.Quotable others :=
  .node hp ⟨read, c.stop, h.isInfix hc, hx⟩

end FlowLint
