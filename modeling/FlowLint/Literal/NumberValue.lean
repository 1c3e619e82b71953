import FlowLint.Literal.Binary64
import FlowLint.Literal.Number

namespace FlowLint

def digitValue (c : Char) : Nat :=
  if c.isDigit then c.toNat - '0'.toNat
  else if 'a' ≤ c then c.toNat - 'a'.toNat + 10
  else c.toNat - 'A'.toNat + 10

/-- The number that digits write in a base. -/
def ofDigits (base : Nat) (digits : List Char) : Nat :=
  digits.foldl (fun n c => base * n + digitValue c) 0

namespace Exponent

def value (exponent : Exponent) : Int :=
  let magnitude := ofDigits 10 exponent.digits
  if exponent.sign = some '-' then -magnitude else magnitude

end Exponent

namespace Decimal

def digits (decimal : Decimal) : List Char :=
  decimal.whole ++ decimal.fraction.getD []

/-- The power of ten that the digits, read as one integer, are to be multiplied by. -/
def scale (decimal : Decimal) : Int :=
  (decimal.exponent.elim 0 Exponent.value) - (decimal.fraction.getD []).length

/-- An exponent part without digits has no value. -/
def value? (decimal : Decimal) : Option Binary64 :=
  if decimal.exponent.any (·.digits.isEmpty) then none
  else some (Binary64.ofScaled (ofDigits 10 decimal.digits) decimal.digits.length decimal.scale)

end Decimal

namespace NumberLiteral

/-- Hexadecimal literals are limited to 64 bits. -/
def value? : NumberLiteral → Option Binary64
  | hexadecimal _ digits =>
    let n := ofDigits 16 digits
    if n < UInt64.size then some (Binary64.ofNat n) else none
  | decimal value => value.value?

def valueOf? (text : List Char) : Option Binary64 :=
  (split text).1.value?

end NumberLiteral

end FlowLint
