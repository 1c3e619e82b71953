import FlowLint.Grammar.Cursor

/-!
The productions of the grammar that refer to one another in a cycle. A production is read by a
function of the reader for all productions; that reader may be called only behind a token that
has been read, so the length of the token list bounds the recursion.
-/
namespace FlowLint

/-- The productions, by the type of what they read. With `noIn`, the word `in` is no operator, as
in the head of a `for`. -/
inductive Production : Type → Type
  /-- Statements up to the end of the file. -/
  | program : Production (List Stmt)
  | statement : Production Stmt
  /-- Statements up to the closing brace, and the brace. -/
  | statements : Production (List Stmt)
  /-- Clauses of a `switch` up to the closing brace, and the brace. -/
  | clauses : Production (List Clause)
  /-- The statements of one clause. -/
  | clauseBody : Production (List Stmt)
  | declarators (noIn : Bool) : Production (List Declarator)
  /-- Names up to the closing parenthesis, and the parenthesis. -/
  | parameters : Production (List Identifier)
  | expression (noIn : Bool) : Production Expr
  /-- The rest of an expression behind its first comma-separated part. -/
  | commaParts (noIn : Bool) : Production (List Expr)
  | assignment (noIn : Bool) : Production Expr
  /-- Operands joined by operators of at least the given precedence. -/
  | binary (least : Nat) (noIn : Bool) : Production Expr
  /-- The rest of such a chain behind its left operand. -/
  | binaryRest (least : Nat) (noIn : Bool) (left : Expr) : Production Expr
  | unary : Production Expr
  /-- Calls and member accesses behind their target. -/
  | suffixes (target : Expr) : Production Expr
  /-- Member accesses behind their target. -/
  | members (target : Expr) : Production Expr
  /-- A `new` expression. -/
  | construction : Production Expr
  /-- Expressions up to a closing bracket or parenthesis, and that symbol. -/
  | elements (close : Symbol) : Production (List Expr)

abbrev Grammar := {α : Type} → Production α → TokenReader α

end FlowLint
