import FlowLint.Grammar.Statement
import FlowLint.Proofs.Grammar.Word

namespace FlowLint
set_option autoImplicit true

namespace Cursor

/-- From one cursor to the next across a token. -/
structure Passes (c : Cursor) (token : Token) (d : Cursor) : Prop where
  ahead : c.ahead = token :: d.ahead
  endOfFile : d.endOfFile = c.endOfFile
  stop : d.stop = token.range.stop

def PassesKind (c : Cursor) (kind : TokenKind) (d : Cursor) : Prop :=
  ∃ token, c.Passes token d ∧ token.kind = kind

def PassesSymbol (c : Cursor) (symbol : Symbol) (d : Cursor) : Prop :=
  c.PassesKind (.symbol symbol) d

def PassesKeyword (c : Cursor) (keyword : Keyword) (d : Cursor) : Prop :=
  c.PassesKind (.keyword keyword) d

def PassesName (c : Cursor) (name : Identifier) (d : Cursor) : Prop :=
  ∃ token, c.Passes token d ∧ token.kind = .name ∧ name = ⟨token.text, token.range⟩

inductive PassesFunctionName (c : Cursor) : Option Identifier → Cursor → Prop
  | absent (h : c.current.kind ≠ .name) : PassesFunctionName c none c
  | present (h : c.PassesName name d) : PassesFunctionName c (some name) d

inductive PassesLabel (c : Cursor) : Option Identifier → Cursor → Prop
  | absent (h : ¬ (c.current.kind = .name ∧ c.current.newlineBefore = false)) :
      PassesLabel c none c
  | present (h : c.PassesName label d) (hn : c.current.newlineBefore = false) :
      PassesLabel c (some label) d

/-- Across the names of parameters and the closing parenthesis. -/
inductive PassesParameters : Cursor → List Identifier → Cursor → Prop
  | nil (h : PassesSymbol c .rightParen d) : PassesParameters c [] d
  | last (h : PassesName c name c₁) (hr : c₁.PassesSymbol .rightParen d) :
      PassesParameters c [name] d
  | cons (h : PassesName c name c₁) (hc : c₁.PassesSymbol .comma c₂)
      (hr : PassesParameters c₂ names d) : PassesParameters c (name :: names) d

inductive PassesEach (c : Cursor) : EachKind → Cursor → Prop
  | keys (h : c.PassesKeyword .in d) : PassesEach c .keys d
  | items (h : c.Passes token d) (ho : token.isOf = true) : PassesEach c .items d

/-- Across the end of a statement: a semicolon, or nothing where the end is implied. -/
inductive Ends (c : Cursor) : Cursor → Prop
  | semicolon (h : c.PassesSymbol .semicolon d) : Ends c d
  | implied (h : TokenReader.impliesEnd c.current = true) : Ends c c

inductive MayEnd (c : Cursor) : Cursor → Prop
  | semicolon (h : c.PassesSymbol .semicolon d) : MayEnd c d
  | absent (h : c.current.kind ≠ .symbol .semicolon) : MayEnd c c

/-- The range from the current token of one cursor to the last token before another. -/
def range (c d : Cursor) : Range :=
  ⟨c.current.range.start, d.stop⟩

end Cursor

inductive Phrase
  | expr (expr : Expr)
  | parenthesized (expr : Expr)
  /-- Expressions with a comma before each of them. -/
  | parts (exprs : List Expr)
  /-- Expressions up to a closing symbol, and that symbol. -/
  | elements (close : Symbol) (exprs : List Expr)
  /-- An expression that may be missing. -/
  | option (expr : Option Expr)
  | initializer (init : Option Expr)
  | stmt (stmt : Stmt)
  | stmts (stmts : List Stmt)
  | orElse (stmt : Option Stmt)
  | declarators (declarators : List Declarator)
  /-- What stands first in the head of a `for`. -/
  | head (stmt : Stmt)
  | init (stmt : Option Stmt)
  | block (block : Block)
  /-- The parameter of a `catch`. -/
  | parameter (parameter : Option Expr)
  | handler (handler : Option Handler)
  | finalizer (block : Option Block)
  /-- What stands first in a clause of a `switch`. -/
  | test (test : Option Expr)
  | clauses (clauses : List Clause)

inductive Stands : Phrase → Cursor → Cursor → Prop
  | parenthesized (hl : c.PassesSymbol .leftParen c₁) (h : Stands (.expr expr) c₁ c₂)
      (hr : c₂.PassesSymbol .rightParen d) : Stands (.parenthesized expr) c d
  | parens (h : Stands (.parenthesized expr) c d) : Stands (.expr expr) c d
  | name (h : c.Passes token d) (hk : token.kind = .name) :
      Stands (.expr (.name token.range token.text)) c d
  | number (h : c.Passes token d) (hk : token.kind = .number)
      (hv : NumberLiteral.valueOf? token.text.toList = some value) :
      Stands (.expr (.number token.range token.text value)) c d
  | string (h : c.Passes token d) (hk : token.kind = .string) :
      Stands (.expr (.string token.range token.text
        (String.ofList (Quoted.value token.text.toList)))) c d
  | boolean (h : c.Passes token d) (hk : token.kind = .keyword (.ofBool value)) :
      Stands (.expr (.boolean token.range value)) c d
  | null (h : c.Passes token d) (hk : token.kind = .keyword .null) :
      Stands (.expr (.null token.range)) c d
  | array (hl : c.PassesSymbol .leftBracket c₁) (h : Stands (.elements .rightBracket elements) c₁ d) :
      Stands (.expr (.array (c.range d) elements)) c d
  | call (h : Stands (.expr callee) c c₁) (hl : c₁.PassesSymbol .leftParen c₂)
      (ha : Stands (.elements .rightParen arguments) c₂ d) :
      Stands (.expr (.call ⟨callee.range.start, d.stop⟩ callee arguments)) c d
  | new (hn : c.PassesKeyword .new c₁) (h : Stands (.expr callee) c₁ c₂)
      (hl : c₂.PassesSymbol .leftParen c₃) (ha : Stands (.elements .rightParen arguments) c₃ d) :
      Stands (.expr (.new (c.range d) callee arguments)) c d
  | bareNew (hn : c.PassesKeyword .new c₁) (h : Stands (.expr callee) c₁ d)
      (hl : d.current.kind ≠ .symbol .leftParen) : Stands (.expr (.new (c.range d) callee [])) c d
  | member (h : Stands (.expr object) c c₁) (hd : c₁.PassesSymbol .dot c₂) (hp : c₂.Passes token d)
      (hs : token.text.toList.head?.any Character.isNameStart = true) :
      Stands (.expr (.member ⟨object.range.start, d.stop⟩ object ⟨token.text, token.range⟩)) c d
  | subscript (h : Stands (.expr object) c c₁) (hl : c₁.PassesSymbol .leftBracket c₂)
      (hi : Stands (.expr index) c₂ c₃) (hr : c₃.PassesSymbol .rightBracket d) :
      Stands (.expr (.subscript ⟨object.range.start, d.stop⟩ object index)) c d
  | unary (ho : c.Passes token c₁) (hk : token.kind.unaryOp? = some op)
      (h : Stands (.expr operand) c₁ d) :
      Stands (.expr (.unary ⟨token.range.start, operand.range.stop⟩ op operand)) c d
  | before (ho : c.Passes token c₁) (hk : token.kind.updateOp? = some op)
      (h : Stands (.expr target) c₁ d) :
      Stands (.expr (.update ⟨token.range.start, target.range.stop⟩ op .before target)) c d
  | after (h : Stands (.expr target) c c₁) (ho : c₁.Passes token d)
      (hk : token.kind.updateOp? = some op) (hn : token.newlineBefore = false) :
      Stands (.expr (.update ⟨target.range.start, token.range.stop⟩ op .after target)) c d
  | binary (hl : Stands (.expr left) c c₁) (ho : c₁.Passes token c₂)
      (hk : token.kind.binaryOp? false = some op) (hr : Stands (.expr right) c₂ d) :
      Stands (.expr (.binary ⟨left.range.start, right.range.stop⟩ op left right)) c d
  | assign (ht : Stands (.expr target) c c₁) (ha : target.isAssignable = true)
      (ho : c₁.Passes token c₂) (hk : token.kind.assignOp? = some op)
      (hv : Stands (.expr value) c₂ d) :
      Stands (.expr (.assign ⟨target.range.start, value.range.stop⟩ op target value)) c d
  | conditional (ht : Stands (.expr test) c c₁) (hq : c₁.PassesSymbol .question c₂)
      (hw : Stands (.expr whenTrue) c₂ c₃) (hc : c₃.PassesSymbol .colon c₄)
      (hf : Stands (.expr whenFalse) c₄ d) :
      Stands (.expr (.conditional ⟨test.range.start, whenFalse.range.stop⟩ test whenTrue whenFalse))
        c d
  | sequence (h : Stands (.expr first) c c₁) (hc : c₁.PassesSymbol .comma c₂)
      (h' : Stands (.expr second) c₂ c₃) (hp : Stands (.parts parts) c₃ d) :
      Stands (.expr (.sequence ⟨first.range.start, d.stop⟩ (first :: second :: parts))) c d
  | functionExpr (hf : c.PassesKeyword .function c₁) (hn : c₁.PassesFunctionName name c₂)
      (hl : c₂.PassesSymbol .leftParen c₃) (hp : c₃.PassesParameters parameters c₄)
      (ho : c₄.PassesSymbol .leftBrace c₅) (hb : Stands (.stmts body) c₅ c₆)
      (hr : c₆.PassesSymbol .rightBrace d) :
      Stands (.expr (.function (c.range d) name parameters body)) c d
  | noParts (h : c.current.kind ≠ .symbol .comma) : Stands (.parts []) c c
  | parts (hc : c.PassesSymbol .comma c₁) (h : Stands (.expr expr) c₁ c₂)
      (hp : Stands (.parts exprs) c₂ d) : Stands (.parts (expr :: exprs)) c d
  | noElements (h : c.PassesSymbol close d) : Stands (.elements close []) c d
  | lastElement (hn : c.current.kind ≠ .symbol close) (h : Stands (.expr expr) c c₁)
      (hr : c₁.PassesSymbol close d) : Stands (.elements close [expr]) c d
  | elements (hn : c.current.kind ≠ .symbol close) (h : Stands (.expr expr) c c₁)
      (hc : c₁.PassesSymbol .comma c₂) (he : Stands (.elements close exprs) c₂ d) :
      Stands (.elements close (expr :: exprs)) c d
  | noOption : Stands (.option none) c c
  | option (h : Stands (.expr expr) c d) : Stands (.option (some expr)) c d
  | noInitializer : Stands (.initializer none) c c
  | initializer (ha : c.PassesSymbol .assign c₁) (h : Stands (.expr expr) c₁ d) :
      Stands (.initializer (some expr)) c d
  | expression (h : Stands (.expr value) c c₁) (he : c₁.Ends d) :
      Stands (.stmt (.expression (c.range d) value)) c d
  | declaration (hk : c.PassesKeyword kind.keyword c₁) (hd : Stands (.declarators declarators) c₁ c₂)
      (he : c₂.Ends d) : Stands (.stmt (.declaration (c.range d) kind declarators)) c d
  | function (hf : c.PassesKeyword .function c₁) (hn : c₁.PassesName name c₂)
      (hl : c₂.PassesSymbol .leftParen c₃) (hp : c₃.PassesParameters parameters c₄)
      (ho : c₄.PassesSymbol .leftBrace c₅) (hb : Stands (.stmts body) c₅ c₆)
      (hr : c₆.PassesSymbol .rightBrace d) :
      Stands (.stmt (.function (c.range d) name parameters body)) c d
  | ifStmt (hk : c.PassesKeyword .if c₁) (ht : Stands (.parenthesized test) c₁ c₂)
      (hb : Stands (.stmt body) c₂ c₃) (he : Stands (.orElse orElse) c₃ d) :
      Stands (.stmt (.ifStmt (c.range d) test body orElse)) c d
  | whileStmt (hk : c.PassesKeyword .while c₁) (ht : Stands (.parenthesized test) c₁ c₂)
      (hb : Stands (.stmt body) c₂ d) : Stands (.stmt (.whileStmt (c.range d) test body)) c d
  | doStmt (hk : c.PassesKeyword .do c₁) (hb : Stands (.stmt body) c₁ c₂)
      (hw : c₂.PassesKeyword .while c₃) (ht : Stands (.parenthesized test) c₃ c₄)
      (he : c₄.MayEnd d) : Stands (.stmt (.doStmt (c.range d) body test)) c d
  | forStmt (hk : c.PassesKeyword .for c₁) (hl : c₁.PassesSymbol .leftParen c₂)
      (hi : Stands (.init init) c₂ c₃) (hs : c₃.PassesSymbol .semicolon c₄)
      (ht : Stands (.option test) c₄ c₅) (hs' : c₅.PassesSymbol .semicolon c₆)
      (hu : Stands (.option update) c₆ c₇) (hr : c₇.PassesSymbol .rightParen c₈)
      (hb : Stands (.stmt body) c₈ d) :
      Stands (.stmt (.forStmt (c.range d) init test update body)) c d
  | forEach (hk : c.PassesKeyword .for c₁) (hl : c₁.PassesSymbol .leftParen c₂)
      (hh : Stands (.head left) c₂ c₃) (he : c₃.PassesEach kind c₄)
      (h : Stands (.expr right) c₄ c₅) (hr : c₅.PassesSymbol .rightParen c₆)
      (hb : Stands (.stmt body) c₆ d) :
      Stands (.stmt (.forEach (c.range d) kind left right body)) c d
  | jump (hk : c.PassesKeyword kind.keyword c₁) (hl : c₁.PassesLabel label c₂) (he : c₂.Ends d) :
      Stands (.stmt (.jump (c.range d) kind label)) c d
  | bareReturn (hk : c.PassesKeyword .return c₁) (he : c₁.Ends d) :
      Stands (.stmt (.returnStmt (c.range d) none)) c d
  | returnStmt (hk : c.PassesKeyword .return c₁)
      (hn : TokenReader.endsStatement c₁.current = false) (h : Stands (.expr value) c₁ c₂)
      (he : c₂.Ends d) : Stands (.stmt (.returnStmt (c.range d) (some value))) c d
  | throwStmt (hk : c.PassesKeyword .throw c₁) (hn : c₁.current.newlineBefore = false)
      (h : Stands (.expr value) c₁ c₂) (he : c₂.Ends d) :
      Stands (.stmt (.throwStmt (c.range d) value)) c d
  | tryStmt (hk : c.PassesKeyword .try c₁) (hb : Stands (.block block) c₁ c₂)
      (hh : Stands (.handler handler) c₂ c₃) (hf : Stands (.finalizer finalizer) c₃ d)
      (hs : (handler.isNone && finalizer.isNone) = false) :
      Stands (.stmt (.tryStmt (c.range d) block handler finalizer)) c d
  | switchStmt (hk : c.PassesKeyword .switch c₁) (hd : Stands (.parenthesized discriminant) c₁ c₂)
      (hl : c₂.PassesSymbol .leftBrace c₃) (hc : Stands (.clauses clauses) c₃ c₄)
      (hr : c₄.PassesSymbol .rightBrace d) :
      Stands (.stmt (.switchStmt (c.range d) discriminant clauses)) c d
  | blockStmt (h : Stands (.block ⟨range, body⟩) c d) : Stands (.stmt (.block range body)) c d
  | labeled (hn : c.PassesName label c₁) (hc : c₁.PassesSymbol .colon c₂)
      (hb : Stands (.stmt body) c₂ d) :
      Stands (.stmt (.labeled ⟨label.range.start, d.stop⟩ label body)) c d
  | empty (h : c.PassesSymbol .semicolon d) : Stands (.stmt (.empty (c.range d))) c d
  | debugger (hk : c.PassesKeyword .debugger c₁) (he : c₁.Ends d) :
      Stands (.stmt (.debugger (c.range d))) c d
  | withStmt (hk : c.PassesKeyword .with c₁) (ho : Stands (.parenthesized object) c₁ c₂)
      (hb : Stands (.stmt body) c₂ d) : Stands (.stmt (.withStmt (c.range d) object body)) c d
  | noStmts : Stands (.stmts []) c c
  | stmts (h : Stands (.stmt stmt) c c₁) (hs : Stands (.stmts stmts) c₁ d) :
      Stands (.stmts (stmt :: stmts)) c d
  | noElse (h : c.current.kind ≠ .keyword .else) : Stands (.orElse none) c c
  | orElse (hk : c.PassesKeyword .else c₁) (h : Stands (.stmt stmt) c₁ d) :
      Stands (.orElse (some stmt)) c d
  | lastDeclarator (hn : c.PassesName name c₁) (hi : Stands (.initializer init) c₁ d) :
      Stands (.declarators [⟨⟨name.range.start, d.stop⟩, name, init⟩]) c d
  | declarators (hn : c.PassesName name c₁) (hi : Stands (.initializer init) c₁ c₂)
      (hc : c₂.PassesSymbol .comma c₃) (hd : Stands (.declarators others) c₃ d) :
      Stands (.declarators (⟨⟨name.range.start, c₂.stop⟩, name, init⟩ :: others)) c d
  | headExpression (h : Stands (.expr value) c d) :
      Stands (.head (.expression value.range value)) c d
  | headDeclaration (hk : c.PassesKeyword kind.keyword c₁)
      (hd : Stands (.declarators declarators) c₁ d) :
      Stands (.head (.declaration (c.range d) kind declarators)) c d
  | noInit : Stands (.init none) c c
  | init (h : Stands (.head stmt) c d) : Stands (.init (some stmt)) c d
  | block (hl : c.PassesSymbol .leftBrace c₁) (h : Stands (.stmts body) c₁ c₂)
      (hr : c₂.PassesSymbol .rightBrace d) : Stands (.block ⟨c.range d, body⟩) c d
  | noParameter : Stands (.parameter none) c c
  | parameter (h : Stands (.parenthesized expr) c d) : Stands (.parameter (some expr)) c d
  | noHandler : Stands (.handler none) c c
  | handler (hk : c.PassesKeyword .catch c₁) (hp : Stands (.parameter parameter) c₁ c₂)
      (hb : Stands (.block block) c₂ d) :
      Stands (.handler (some ⟨c.range d, parameter, block⟩)) c d
  | noFinalizer : Stands (.finalizer none) c c
  | finalizer (hk : c.PassesKeyword .finally c₁) (hb : Stands (.block block) c₁ d) :
      Stands (.finalizer (some block)) c d
  | defaultTest (hk : c.PassesKeyword .default d) : Stands (.test none) c d
  | test (hk : c.PassesKeyword .case c₁) (h : Stands (.expr expr) c₁ d) :
      Stands (.test (some expr)) c d
  | noClauses : Stands (.clauses []) c c
  | clauses (ht : Stands (.test test) c c₁) (hc : c₁.PassesSymbol .colon c₂)
      (hb : Stands (.stmts body) c₂ c₃) (hs : Stands (.clauses others) c₃ d) :
      Stands (.clauses (⟨c.range c₃, test, body⟩ :: others)) c d

end FlowLint
