import FlowLint.Flow.Builder
import FlowLint.Tree.Body

namespace FlowLint

mutual

def Expr.unlabel : Expr → Expr
  | .name range id => .name range id
  | .number range text value => .number range text value
  | .string range text value => .string range text value
  | .boolean range value => .boolean range value
  | .null range => .null range
  | .array range elements => .array range (Expr.unlabels elements)
  | .call range callee arguments => .call range callee.unlabel (Expr.unlabels arguments)
  | .new range callee arguments => .new range callee.unlabel (Expr.unlabels arguments)
  | .member range object property => .member range object.unlabel property
  | .subscript range object index => .subscript range object.unlabel index.unlabel
  | .unary range op operand => .unary range op operand.unlabel
  | .update range op fixity target => .update range op fixity target.unlabel
  | .binary range op left right => .binary range op left.unlabel right.unlabel
  | .assign range op target value => .assign range op target.unlabel value.unlabel
  | .conditional range test whenTrue whenFalse =>
    .conditional range test.unlabel whenTrue.unlabel whenFalse.unlabel
  | .sequence range elements => .sequence range (Expr.unlabels elements)
  | .function range name parameters body =>
    .function range name parameters (Stmt.unlabels [] body)

def Expr.unlabels : List Expr → List Expr
  | [] => []
  | expr :: exprs => expr.unlabel :: Expr.unlabels exprs

def Expr.optionUnlabel : Option Expr → Option Expr
  | none => none
  | some expr => some expr.unlabel

/-- The same statement without unknown labels. The statements around it carry the labels `around`,
and in front of it stand the labels `own`, which cover its parts. The first part of a `for` runs
before the loop and is not covered. -/
def Stmt.unlabel (around own : List String) : Stmt → Stmt
  | .expression range value => .expression range value.unlabel
  | .declaration range kind declarators =>
    .declaration range kind (Declarator.unlabels declarators)
  | .function range name parameters body =>
    .function range name parameters (Stmt.unlabels [] body)
  | .ifStmt range test body orElse =>
    .ifStmt range test.unlabel (body.unlabel (own ++ around) [])
      (Stmt.optionUnlabel (own ++ around) orElse)
  | .whileStmt range test body =>
    .whileStmt range test.unlabel (body.unlabel (own ++ around) [])
  | .doStmt range body test => .doStmt range (body.unlabel (own ++ around) []) test.unlabel
  | .forStmt range init test update body =>
    .forStmt range (Stmt.optionUnlabel around init) (Expr.optionUnlabel test)
      (Expr.optionUnlabel update) (body.unlabel (own ++ around) [])
  | .forEach range kind left right body =>
    .forEach range kind (left.unlabel (own ++ around) []) right.unlabel
      (body.unlabel (own ++ around) [])
  | .jump range kind label => .jump range kind (label.filter (·.name ∈ own ++ around))
  | .returnStmt range value => .returnStmt range (Expr.optionUnlabel value)
  | .throwStmt range value => .throwStmt range value.unlabel
  | .tryStmt range block handler finalizer =>
    .tryStmt range (block.unlabel (own ++ around)) (Handler.optionUnlabel (own ++ around) handler)
      (Block.optionUnlabel (own ++ around) finalizer)
  | .switchStmt range discriminant clauses =>
    .switchStmt range discriminant.unlabel (Clause.unlabels (own ++ around) clauses)
  | .block range body => .block range (Stmt.unlabels (own ++ around) body)
  | .labeled range label body => .labeled range label (body.unlabel around (own ++ [label.name]))
  | .empty range => .empty range
  | .debugger range => .debugger range
  | .withStmt range object body =>
    .withStmt range object.unlabel (body.unlabel (own ++ around) [])

def Stmt.unlabels (around : List String) : List Stmt → List Stmt
  | [] => []
  | stmt :: stmts => stmt.unlabel around [] :: Stmt.unlabels around stmts

def Stmt.optionUnlabel (around : List String) : Option Stmt → Option Stmt
  | none => none
  | some stmt => some (stmt.unlabel around [])

def Declarator.unlabels : List Declarator → List Declarator
  | [] => []
  | ⟨range, name, init⟩ :: declarators =>
    ⟨range, name, Expr.optionUnlabel init⟩ :: Declarator.unlabels declarators

def Block.unlabel (around : List String) : Block → Block
  | ⟨range, body⟩ => ⟨range, Stmt.unlabels around body⟩

def Block.optionUnlabel (around : List String) : Option Block → Option Block
  | none => none
  | some block => some (block.unlabel around)

def Handler.optionUnlabel (around : List String) : Option Handler → Option Handler
  | none => none
  | some ⟨range, parameter, body⟩ =>
    some ⟨range, Expr.optionUnlabel parameter, body.unlabel around⟩

def Clause.unlabels (around : List String) : List Clause → List Clause
  | [] => []
  | ⟨range, test, body⟩ :: clauses =>
    ⟨range, Expr.optionUnlabel test, Stmt.unlabels around body⟩ :: Clause.unlabels around clauses

end

def Node.unlabel (around own : List String) : Node → Node
  | .statement stmt => .statement (stmt.unlabel around own)
  | .expression expr => .expression expr.unlabel

def Body.unlabel (body : Body) : Body :=
  { body with stmts := Stmt.unlabels [] body.stmts }

mutual

@[simp] theorem Expr.size_unlabel : ∀ expr : Expr, expr.unlabel.size = expr.size
  | .name .. | .number .. | .string .. | .boolean .. | .null .. => by
    simp only [Expr.unlabel]
  | .array _ elements | .sequence _ elements => by
    simp only [Expr.unlabel, Expr.size, Expr.sizes_unlabels elements]
  | .call _ callee arguments | .new _ callee arguments => by
    simp only [Expr.unlabel, Expr.size, Expr.size_unlabel callee, Expr.sizes_unlabels arguments]
  | .member _ operand _ | .unary _ _ operand | .update _ _ _ operand => by
    simp only [Expr.unlabel, Expr.size, Expr.size_unlabel operand]
  | .subscript _ left right | .binary _ _ left right | .assign _ _ left right => by
    simp only [Expr.unlabel, Expr.size, Expr.size_unlabel left, Expr.size_unlabel right]
  | .conditional _ test whenTrue whenFalse => by
    simp only [Expr.unlabel, Expr.size, Expr.size_unlabel test, Expr.size_unlabel whenTrue,
      Expr.size_unlabel whenFalse]
  | .function _ _ _ body => by simp only [Expr.unlabel, Expr.size, Stmt.sizes_unlabels [] body]

@[simp] theorem Expr.sizes_unlabels :
    ∀ exprs : List Expr, Expr.sizes (Expr.unlabels exprs) = Expr.sizes exprs
  | [] => by simp only [Expr.unlabels]
  | expr :: exprs => by
    simp only [Expr.unlabels, Expr.sizes, Expr.size_unlabel expr, Expr.sizes_unlabels exprs]

@[simp] theorem Expr.optionSize_optionUnlabel :
    ∀ expr : Option Expr, Expr.optionSize (Expr.optionUnlabel expr) = Expr.optionSize expr
  | none => by simp only [Expr.optionUnlabel]
  | some expr => by simp only [Expr.optionUnlabel, Expr.optionSize, Expr.size_unlabel expr]

@[simp] theorem Stmt.size_unlabel :
    ∀ (around own : List String) (stmt : Stmt), (stmt.unlabel around own).size = stmt.size
  | _, _, .jump .. | _, _, .empty _ | _, _, .debugger _ => by simp only [Stmt.unlabel, Stmt.size]
  | _, _, .expression _ value | _, _, .throwStmt _ value => by
    simp only [Stmt.unlabel, Stmt.size, Expr.size_unlabel value]
  | _, _, .declaration _ _ declarators => by
    simp only [Stmt.unlabel, Stmt.size, Declarator.sizes_unlabels declarators]
  | _, _, .function _ _ _ body | _, _, .block _ body => by
    simp only [Stmt.unlabel, Stmt.size, Stmt.sizes_unlabels _ body]
  | _, _, .ifStmt _ test body orElse => by
    simp only [Stmt.unlabel, Stmt.size, Expr.size_unlabel test, Stmt.size_unlabel _ _ body,
      Stmt.optionSize_optionUnlabel _ orElse]
  | _, _, .whileStmt _ test body | _, _, .doStmt _ body test | _, _, .withStmt _ test body => by
    simp only [Stmt.unlabel, Stmt.size, Expr.size_unlabel test, Stmt.size_unlabel _ _ body]
  | _, _, .forStmt _ init test update body => by
    simp only [Stmt.unlabel, Stmt.size, Stmt.optionSize_optionUnlabel _ init,
      Expr.optionSize_optionUnlabel test, Expr.optionSize_optionUnlabel update,
      Stmt.size_unlabel _ _ body]
  | _, _, .forEach _ _ left right body => by
    simp only [Stmt.unlabel, Stmt.size, Stmt.size_unlabel _ _ left, Expr.size_unlabel right,
      Stmt.size_unlabel _ _ body]
  | _, _, .returnStmt _ value => by
    simp only [Stmt.unlabel, Stmt.size, Expr.optionSize_optionUnlabel value]
  | _, _, .tryStmt _ block handler finalizer => by
    simp only [Stmt.unlabel, Stmt.size, Block.size_unlabel _ block,
      Handler.optionSize_optionUnlabel _ handler, Block.optionSize_optionUnlabel _ finalizer]
  | _, _, .switchStmt _ discriminant clauses => by
    simp only [Stmt.unlabel, Stmt.size, Expr.size_unlabel discriminant,
      Clause.sizes_unlabels _ clauses]
  | _, _, .labeled _ _ body => by simp only [Stmt.unlabel, Stmt.size, Stmt.size_unlabel _ _ body]

@[simp] theorem Stmt.sizes_unlabels :
    ∀ (around : List String) (stmts : List Stmt),
      Stmt.sizes (Stmt.unlabels around stmts) = Stmt.sizes stmts
  | _, [] => by simp only [Stmt.unlabels]
  | _, stmt :: stmts => by
    simp only [Stmt.unlabels, Stmt.sizes, Stmt.size_unlabel _ _ stmt, Stmt.sizes_unlabels _ stmts]

@[simp] theorem Stmt.optionSize_optionUnlabel :
    ∀ (around : List String) (stmt : Option Stmt),
      Stmt.optionSize (Stmt.optionUnlabel around stmt) = Stmt.optionSize stmt
  | _, none => by simp only [Stmt.optionUnlabel]
  | _, some stmt => by simp only [Stmt.optionUnlabel, Stmt.optionSize, Stmt.size_unlabel _ _ stmt]

@[simp] theorem Declarator.sizes_unlabels : ∀ declarators : List Declarator,
    Declarator.sizes (Declarator.unlabels declarators) = Declarator.sizes declarators
  | [] => by simp only [Declarator.unlabels]
  | ⟨_, _, init⟩ :: declarators => by
    simp only [Declarator.unlabels, Declarator.sizes, Expr.optionSize_optionUnlabel init,
      Declarator.sizes_unlabels declarators]

@[simp] theorem Block.size_unlabel :
    ∀ (around : List String) (block : Block), (block.unlabel around).size = block.size
  | _, ⟨_, body⟩ => by simp only [Block.unlabel, Block.size, Stmt.sizes_unlabels _ body]

@[simp] theorem Block.optionSize_optionUnlabel :
    ∀ (around : List String) (block : Option Block),
      Block.optionSize (Block.optionUnlabel around block) = Block.optionSize block
  | _, none => by simp only [Block.optionUnlabel]
  | _, some block => by simp only [Block.optionUnlabel, Block.optionSize, Block.size_unlabel _ block]

@[simp] theorem Handler.optionSize_optionUnlabel :
    ∀ (around : List String) (handler : Option Handler),
      Handler.optionSize (Handler.optionUnlabel around handler) = Handler.optionSize handler
  | _, none => by simp only [Handler.optionUnlabel]
  | _, some ⟨_, parameter, body⟩ => by
    simp only [Handler.optionUnlabel, Handler.optionSize, Expr.optionSize_optionUnlabel parameter,
      Block.size_unlabel _ body]

@[simp] theorem Clause.sizes_unlabels :
    ∀ (around : List String) (clauses : List Clause),
      Clause.sizes (Clause.unlabels around clauses) = Clause.sizes clauses
  | _, [] => by simp only [Clause.unlabels]
  | _, ⟨_, test, body⟩ :: clauses => by
    simp only [Clause.unlabels, Clause.sizes, Expr.optionSize_optionUnlabel test,
      Stmt.sizes_unlabels _ body, Clause.sizes_unlabels _ clauses]

end

theorem Expr.range_unlabel (expr : Expr) : expr.unlabel.range = expr.range := by
  cases expr <;> simp only [unlabel, range]

theorem Stmt.range_unlabel (around own : List String) (stmt : Stmt) :
    (stmt.unlabel around own).range = stmt.range := by
  cases stmt <;> simp only [unlabel, range]

theorem Node.range_unlabel (around own : List String) (node : Node) :
    (node.unlabel around own).range = node.range := by
  cases node with
  | statement stmt => exact stmt.range_unlabel around own
  | expression expr => exact expr.range_unlabel

theorem Stmt.takesLabels_unlabel (around own : List String) (stmt : Stmt) :
    (stmt.unlabel around own).takesLabels = stmt.takesLabels := by
  cases stmt <;> simp only [unlabel, takesLabels]

/-- Labels in front of a statement that does not take them over are as good as labels around it. -/
theorem Stmt.unlabel_of_takesLabels {stmt : Stmt} (h : stmt.takesLabels = false)
    (around own : List String) : stmt.unlabel around own = stmt.unlabel (own ++ around) [] := by
  cases stmt with
  | whileStmt | doStmt | forStmt | forEach | switchStmt | labeled => cases h
  | _ => simp only [unlabel, List.nil_append]

end FlowLint
