namespace FlowLint

/-- `n / d` rounded to the nearest integer, a half to the even one. -/
def roundHalfEven (n d : Nat) : Nat :=
  let quotient := n / d
  let twice := 2 * (n % d)
  if twice < d then quotient
  else if d < twice then quotient + 1
  else quotient + quotient % 2

/-- The bit pattern of a binary64 number without sign. -/
structure Binary64 where
  bits : UInt64
deriving DecidableEq, Repr, Inhabited

namespace Binary64

/-- The pattern of infinity, above those of all finite numbers. -/
def infinityPattern : Nat := 2047 <<< 52

def zero : Binary64 := ⟨0⟩

def infinity : Binary64 := ⟨UInt64.ofNat infinityPattern⟩

/-- The pattern of `units / den` times the least positive number, rounded. A significand `m` with
the exponent field `shift + 1` is `m * 2 ^ shift` units, and its pattern is
`shift * 2 ^ 52 + m`, also for subnormal numbers, where `shift` is `0`, and for a significand that
was rounded up to `2 ^ 53`. -/
def pattern (units den : Nat) : Nat :=
  let shift := (units / den).log2 - 52
  (shift <<< 52) + roundHalfEven units (den <<< shift)

def ofRatio (num den : Nat) : Binary64 :=
  ⟨UInt64.ofNat (min (pattern (num <<< 1074) den) infinityPattern)⟩

def ofNat (n : Nat) : Binary64 :=
  ofRatio n 1

/-- `coefficient * 10 ^ exponent` rounded to nearest. The first two cases answer at once where the
power of ten would be too large to compute: `10 ^ 309` is beyond the largest finite number, and
`10 ^ (-324)` is below half of the least positive one. `digits` bounds the coefficient by
`10 ^ digits`. -/
def ofScaled (coefficient digits : Nat) (exponent : Int) : Binary64 :=
  if coefficient = 0 ∨ digits + exponent ≤ -324 then zero
  else if 309 ≤ exponent then infinity
  else if 0 ≤ exponent then ofRatio (coefficient * Nat.pow 10 exponent.toNat) 1
  else ofRatio coefficient (Nat.pow 10 (-exponent).toNat)

end Binary64

end FlowLint
