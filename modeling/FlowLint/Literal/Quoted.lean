import FlowLint.Character.Class

/-!
String literals: where the closing quote is, and which text the characters between the quotes
stand for. Both pair a backslash with the character after it.
-/
namespace FlowLint.Quoted

/-- Splits the text after an opening quote behind the closing one. A line end that no backslash
precedes, or the end of the text, is an error, given with the characters read until then. -/
def splitBody (quote : Char) : List Char → Except (List Char) (List Char × List Char)
  | [] => .error []
  | ['\\'] => .error ['\\']
  | '\\' :: c :: cs =>
    match splitBody quote cs with
    | .ok (body, rest) => .ok ('\\' :: c :: body, rest)
    | .error read => .error ('\\' :: c :: read)
  | c :: cs =>
    if c = quote then .ok ([c], cs)
    else if Character.isLineEnd c then .error [c]
    else
      match splitBody quote cs with
      | .ok (body, rest) => .ok (c :: body, rest)
      | .error read => .error (c :: read)

/-- The character a backslash and `c` stand for. -/
def unescape (c : Char) : Char :=
  if c = 'n' then '\n'
  else if c = 't' then '\t'
  else if c = 'r' then '\r'
  else if c = '0' then '\x00'
  else c

/-- The text that the characters between the quotes stand for. -/
def decode : List Char → List Char
  | [] => []
  | ['\\'] => []
  | '\\' :: c :: cs => unescape c :: decode cs
  | c :: cs => c :: decode cs

def value (literal : List Char) : List Char :=
  decode literal.tail.dropLast

theorem splitBody_text {quote : Char} {cs body rest : List Char}
    (h : splitBody quote cs = .ok (body, rest)) : body ++ rest = cs := by
  fun_induction splitBody quote cs generalizing body rest <;> grind

end FlowLint.Quoted
