import FlowLint.Character.Class

namespace FlowLint

/-- An exponent part; nothing forces it to have digits. -/
structure Exponent where
  marker : Char
  sign : Option Char
  digits : List Char
deriving DecidableEq, Repr, Inhabited

/-- A decimal literal; the fraction is what follows the point, if there is one. -/
structure Decimal where
  whole : List Char
  fraction : Option (List Char)
  exponent : Option Exponent
deriving DecidableEq, Repr, Inhabited

inductive NumberLiteral
  | hexadecimal (marker : Char) (digits : List Char)
  | decimal (value : Decimal)
deriving DecidableEq, Repr, Inhabited

/-- Whether a number literal starts here: a digit, or a point before a digit. -/
def startsNumber (c : Char) (cs : List Char) : Bool :=
  c.isDigit || (c == '.' && cs.head?.any Char.isDigit)

namespace Exponent

def text (exponent : Exponent) : List Char :=
  exponent.marker :: (exponent.sign.toList ++ exponent.digits)

/-- Reads a sign and digits after the marker. -/
def afterMarker (marker : Char) : List Char → Exponent × List Char
  | '+' :: cs => (⟨marker, some '+', cs.takeWhile Char.isDigit⟩, cs.dropWhile Char.isDigit)
  | '-' :: cs => (⟨marker, some '-', cs.takeWhile Char.isDigit⟩, cs.dropWhile Char.isDigit)
  | cs => (⟨marker, none, cs.takeWhile Char.isDigit⟩, cs.dropWhile Char.isDigit)

def split : List Char → Option Exponent × List Char
  | [] => (none, [])
  | c :: cs =>
    if c = 'e' ∨ c = 'E' then
      let (exponent, rest) := afterMarker c cs
      (some exponent, rest)
    else
      (none, c :: cs)

theorem afterMarker_text (marker : Char) (cs : List Char) :
    (afterMarker marker cs).1.text ++ (afterMarker marker cs).2 = marker :: cs := by
  unfold afterMarker
  split <;> simp [text]

theorem split_text (cs : List Char) :
    ((split cs).1.elim [] text) ++ (split cs).2 = cs := by
  unfold split
  split
  · rfl
  · split
    · exact afterMarker_text _ _
    · rfl

end Exponent

namespace Decimal

def text (decimal : Decimal) : List Char :=
  decimal.whole ++ decimal.fraction.elim [] ('.' :: ·) ++ decimal.exponent.elim [] Exponent.text

def splitFraction : List Char → Option (List Char) × List Char
  | '.' :: cs => (some (cs.takeWhile Char.isDigit), cs.dropWhile Char.isDigit)
  | cs => (none, cs)

def split (cs : List Char) : Decimal × List Char :=
  let (fraction, afterFraction) := splitFraction (cs.dropWhile Char.isDigit)
  let (exponent, rest) := Exponent.split afterFraction
  (⟨cs.takeWhile Char.isDigit, fraction, exponent⟩, rest)

theorem splitFraction_text (cs : List Char) :
    ((splitFraction cs).1.elim [] ('.' :: ·)) ++ (splitFraction cs).2 = cs := by
  unfold splitFraction
  split <;> simp

theorem split_text (cs : List Char) : (split cs).1.text ++ (split cs).2 = cs := by
  simp only [split, text, List.append_assoc, Exponent.split_text, splitFraction_text,
    List.takeWhile_append_dropWhile]

theorem split_ne_nil {c : Char} {cs : List Char} (h : startsNumber c cs = true) :
    (split (c :: cs)).1.text ≠ [] := by
  by_cases hd : c.isDigit = true
  · simp [split, text, hd]
  · have hc : c = '.' := by simp_all [startsNumber]
    subst hc
    simp [split, text, splitFraction, hd]

end Decimal

namespace NumberLiteral

def text : NumberLiteral → List Char
  | hexadecimal marker digits => '0' :: marker :: digits
  | decimal value => value.text

/-- Reads the longest literal in front. -/
def split : List Char → NumberLiteral × List Char
  | '0' :: marker :: cs =>
    if marker = 'x' ∨ marker = 'X' then
      (hexadecimal marker (cs.takeWhile Character.isHexDigit), cs.dropWhile Character.isHexDigit)
    else
      let (value, rest) := Decimal.split ('0' :: marker :: cs)
      (decimal value, rest)
  | cs =>
    let (value, rest) := Decimal.split cs
    (decimal value, rest)

theorem split_text (cs : List Char) : (split cs).1.text ++ (split cs).2 = cs := by
  unfold split
  split
  · split
    · simp [text]
    · exact Decimal.split_text _
  · exact Decimal.split_text _

theorem split_ne_nil {c : Char} {cs : List Char} (h : startsNumber c cs = true) :
    (split (c :: cs)).1.text ≠ [] := by
  unfold split
  split
  · split
    · simp [text]
    · next hc _ =>
      cases hc
      exact Decimal.split_ne_nil h
  · exact Decimal.split_ne_nil h

end NumberLiteral

end FlowLint
