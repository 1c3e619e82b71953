import FlowLint.Grammar.Statement
import FlowLint.Token.Stream

/-!
Reading scripts. The cycle of productions is cut by a bound on the tokens ahead: each use of a
production by another stands behind a token, so the bound is never used up.
-/
namespace FlowLint

/-- Reads a production, the productions inside it with `g`. -/
def Grammar.read (g : Grammar) : {α : Type} → Production α → TokenReader α
  | _, .program => g.program
  | _, .statement => g.statement
  | _, .statements => g.statements
  | _, .clauses => g.clauses
  | _, .clauseBody => g.clauseBody
  | _, .declarators noIn => g.declarators noIn
  | _, .parameters => g.parameters
  | _, .expression noIn => g.expression noIn
  | _, .commaParts noIn => g.commaParts noIn
  | _, .assignment noIn => g.assignment noIn
  | _, .binary least noIn => g.binary least noIn
  | _, .binaryRest least noIn left => g.binaryRest least noIn left
  | _, .unary => g.unary
  | _, .suffixes target => g.suffixes target
  | _, .members target => g.members target
  | _, .construction => g.construction
  | _, .elements close => g.elements close

/-- The grammar for token lists shorter than the bound. -/
def Grammar.upTo : Nat → {α : Type} → Production α → TokenReader α
  | 0, _, _ => TokenReader.unexpected .expression
  | bound + 1, _, production => Grammar.read (Grammar.upTo bound) production

/-- Reads a production from a token list of any length. -/
def Production.parse {α : Type} (production : Production α) : TokenReader α := fun cursor =>
  Grammar.upTo (cursor.ahead.length + 1) production cursor

namespace Script

def ofTokens (tokens : List Token) : Except ParseError Script := do
  let cursor := Cursor.ofTokens tokens
  let (body, _) ← Production.program.parse cursor
  return ⟨⟨0, cursor.endOfFile.range.stop⟩, body⟩

def parse (source : String) : Except ParseError Script := do
  ofTokens (← tokens source)

end Script

end FlowLint
