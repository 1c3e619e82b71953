namespace FlowLint

/-- The half-open span from byte `start` to byte `stop`. -/
structure Range where
  start : Nat
  stop : Nat
deriving DecidableEq, Repr, Inhabited

def byteLength : List Char → Nat
  | [] => 0
  | c :: cs => c.utf8Size + byteLength cs

theorem byteLength_append (xs ys : List Char) :
    byteLength (xs ++ ys) = byteLength xs + byteLength ys := by
  induction xs with
  | nil => simp [byteLength]
  | cons c cs ih => simp [byteLength, ih, Nat.add_assoc]

/-- What remains after the characters of the first `n` bytes. -/
def dropBytes : Nat → List Char → List Char
  | _, [] => []
  | 0, cs => cs
  | n, c :: cs => dropBytes (n - c.utf8Size) cs

def takeBytes : Nat → List Char → List Char
  | _, [] => []
  | 0, _ => []
  | n, c :: cs => c :: takeBytes (n - c.utf8Size) cs

def Range.slice (range : Range) (source : String) : String :=
  String.ofList (takeBytes (range.stop - range.start) (dropBytes range.start source.toList))

class Ranged (α : Type) where
  range : α → Range

instance : Ranged Range := ⟨id⟩

theorem dropBytes_append (xs ys : List Char) : dropBytes (byteLength xs) (xs ++ ys) = ys := by
  induction xs with
  | nil => cases ys <;> simp [byteLength, dropBytes]
  | cons c cs ih =>
    have := c.utf8Size_pos
    rw [byteLength, List.cons_append, dropBytes]
    · rw [Nat.add_sub_cancel_left, ih]
    · omega

theorem takeBytes_append (xs ys : List Char) : takeBytes (byteLength xs) (xs ++ ys) = xs := by
  induction xs with
  | nil => cases ys <;> simp [byteLength, takeBytes]
  | cons c cs ih =>
    have := c.utf8Size_pos
    rw [byteLength, List.cons_append, takeBytes]
    · rw [Nat.add_sub_cancel_left, ih]
    · omega

end FlowLint
