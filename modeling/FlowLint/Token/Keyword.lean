namespace FlowLint

inductive Keyword
  | break | case | catch | const | continue | debugger | default | delete | do
  | else | false | finally | for | function | if | in | instanceof | let
  | new | null | return | switch | throw | true | try | typeof | var | void
  | while | with
deriving DecidableEq, Repr, Inhabited

namespace Keyword

def text : Keyword → String
  | .break => "break"
  | .case => "case"
  | .catch => "catch"
  | .const => "const"
  | .continue => "continue"
  | .debugger => "debugger"
  | .default => "default"
  | .delete => "delete"
  | .do => "do"
  | .else => "else"
  | .false => "false"
  | .finally => "finally"
  | .for => "for"
  | .function => "function"
  | .if => "if"
  | .in => "in"
  | .instanceof => "instanceof"
  | .let => "let"
  | .new => "new"
  | .null => "null"
  | .return => "return"
  | .switch => "switch"
  | .throw => "throw"
  | .true => "true"
  | .try => "try"
  | .typeof => "typeof"
  | .var => "var"
  | .void => "void"
  | .while => "while"
  | .with => "with"

def all : List Keyword :=
  [.break, .case, .catch, .const, .continue, .debugger, .default, .delete, .do, .else,
   .false, .finally, .for, .function, .if, .in, .instanceof, .let, .new, .null,
   .return, .switch, .throw, .true, .try, .typeof, .var, .void, .while, .with]

/-- The keyword spelled by a word, if it is reserved. -/
def ofWord? (word : List Char) : Option Keyword :=
  all.find? fun keyword => keyword.text.toList == word

theorem mem_all (keyword : Keyword) : keyword ∈ all := by
  cases keyword <;> decide

theorem text_of_ofWord? {word : List Char} {keyword : Keyword} (h : ofWord? word = some keyword) :
    keyword.text.toList = word := by
  unfold ofWord? at h
  have hw := List.find?_some h
  exact eq_of_beq hw

theorem ofWord?_text (keyword : Keyword) : ofWord? keyword.text.toList = some keyword := by
  cases keyword <;> decide

end Keyword

end FlowLint
