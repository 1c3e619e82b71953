namespace FlowLint

/-- A basic block by its number, or the place behind all of them where every run ends. -/
inductive Vertex
  | block (index : Nat)
  | exit
deriving DecidableEq, Repr, Inhabited

namespace Vertex

/-- Blocks by number, the exit last. -/
def le : Vertex → Vertex → Bool
  | block i, block j => i ≤ j
  | block _, exit => true
  | exit, block _ => false
  | exit, exit => true

def text : Vertex → String
  | block index => toString index
  | exit => "END"

def termText : Vertex → String
  | block index => s!"Block(BlockId({index}))"
  | exit => "End"

def sort (vertices : List Vertex) : List Vertex :=
  vertices.mergeSort le

theorem le_refl (v : Vertex) : v.le v = true := by
  cases v <;> simp [le]

theorem le_trans {u v w : Vertex} (huv : u.le v = true) (hvw : v.le w = true) :
    u.le w = true := by
  cases u <;> cases v <;> cases w <;> simp_all [le]
  omega

theorem le_total (u v : Vertex) : u.le v = true ∨ v.le u = true := by
  cases u <;> cases v <;> simp [le]
  omega

theorem le_antisymm {u v : Vertex} (huv : u.le v = true) (hvu : v.le u = true) : u = v := by
  cases u <;> cases v <;> simp_all [le]
  omega

end Vertex

end FlowLint
