namespace FlowLint

/-- A row number; the tag keeps the numbers of different tables apart. -/
structure Index (tag : String) where
  value : Nat
deriving DecidableEq, Repr, Inhabited

inductive TableError
  | indexTooLarge
  | outOfBounds (size index : Nat)
deriving DecidableEq, Repr

def TableError.message : TableError → String
  | indexTooLarge => "index overflows u32"
  | outOfBounds size index => s!"index out of bounds: the len is {size} but the index is {index}"

namespace Index

variable {tag : String}

/-- Row numbers have 32 bits. -/
def ofNat (n : Nat) : Except TableError (Index tag) :=
  if n < UInt32.size then .ok ⟨n⟩ else .error .indexTooLarge

def text (index : Index tag) : String :=
  s!"{tag}({index.value})"

def lt (left right : Index tag) : Bool :=
  left.value < right.value

end Index

structure Table (tag : String) (α : Type) where
  rows : List α
deriving DecidableEq, Repr, Inhabited

namespace Table

variable {tag : String} {α : Type}

def empty : Table tag α :=
  ⟨[]⟩

def ofList (rows : List α) : Table tag α :=
  ⟨rows⟩

def toList (table : Table tag α) : List α :=
  table.rows

def size (table : Table tag α) : Nat :=
  table.rows.length

def isEmpty (table : Table tag α) : Bool :=
  table.rows.isEmpty

def nextIndex (table : Table tag α) : Except TableError (Index tag) :=
  Index.ofNat table.size

def push (row : α) (table : Table tag α) : Except TableError (Index tag × Table tag α) := do
  let index ← table.nextIndex
  return (index, ⟨table.rows ++ [row]⟩)

def get? (table : Table tag α) (index : Index tag) : Option α :=
  table.rows[index.value]?

def get (table : Table tag α) (index : Index tag) : Except TableError α :=
  match table.get? index with
  | some row => .ok row
  | none => .error (.outOfBounds table.size index.value)

def set (table : Table tag α) (index : Index tag) (row : α) : Except TableError (Table tag α) :=
  if index.value < table.size then .ok ⟨table.rows.set index.value row⟩
  else .error (.outOfBounds table.size index.value)

def map (f : α → α) (table : Table tag α) : Table tag α :=
  ⟨table.rows.map f⟩

def indices (table : Table tag α) : List (Index tag) :=
  (List.range table.size).map (⟨·⟩)

def entries (table : Table tag α) : List (Index tag × α) :=
  table.indices.zip table.rows

def text [ToString α] (table : Table tag α) : String :=
  let entries := table.entries.map fun (index, row) => index.text ++ ": " ++ toString row
  "\x7b" ++ ", ".intercalate entries ++ "\x7d"

theorem toList_ofList (rows : List α) : (ofList rows : Table tag α).toList = rows := rfl

theorem get?_push {table table' : Table tag α} {row : α} {index : Index tag}
    (h : table.push row = .ok (index, table')) : table'.get? index = some row := by
  simp only [push, nextIndex, Index.ofNat, bind, Except.bind] at h
  split at h
  · cases h
  · next hi =>
    split at hi
    · cases hi
      cases h
      simp [get?, size]
    · cases hi

end Table

end FlowLint
