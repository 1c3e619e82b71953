import FlowLint.Flow.Raw
import FlowLint.Tree.Walk

/-!
A graph while it grows. A body is built from its last statement to its first, so that what follows
a statement exists when the statement is added; the elements of straight-line statements go to the
front of one current block.
-/
namespace FlowLint

structure Draft where
  blocks : List (RawBlock Element)
  current : Nat

namespace Draft

/-- One empty block in front of the exit. -/
def initial : Draft :=
  ⟨[.ofEdge (.jump (some .exit))], 0⟩

def here (draft : Draft) : Vertex :=
  .block draft.current

/-- Adds an empty block and makes it the current one. -/
def enterBlock (edge : RawEdge) (draft : Draft) : Draft :=
  ⟨draft.blocks ++ [.ofEdge edge], draft.blocks.length⟩

def enter (target : Vertex) (draft : Draft) : Draft :=
  draft.enterBlock (.jump (some target))

def prepend (element : Element) (draft : Draft) : Draft :=
  { draft with blocks := draft.blocks.modify draft.current (RawBlock.prepend element) }

/-- Adds a block for the guard of a loop that waits for its body; the current block stays. -/
def addGuard (edge : RawEdge) (element : Element) (draft : Draft) : Draft :=
  { draft with blocks := draft.blocks ++ [⟨[element], edge⟩] }

def addTest (onTrue onFalse : Vertex) (test : Element) (draft : Draft) : Draft :=
  { draft with blocks := draft.blocks ++ [⟨[test], .branch (some onTrue) onFalse⟩] }

def next (draft : Draft) : Vertex :=
  .block draft.blocks.length

/-- Points a waiting guard at the body of its loop, which is the current block. -/
def wire (guard : Nat) (draft : Draft) : Draft :=
  { draft with blocks := draft.blocks.modify guard (RawBlock.enterLoop draft.here) }

inductive Step
  | prepend (element : Element)
  | enterBlock (edge : RawEdge)
  | addGuard (edge : RawEdge) (head : Element)
  | addTest (onTrue onFalse : Vertex) (test : Element)
  | wire (guard : Nat)

def Step.apply : Step → Draft → Draft
  | prepend element, draft => draft.prepend element
  | enterBlock edge, draft => draft.enterBlock edge
  | addGuard edge head, draft => draft.addGuard edge head
  | addTest onTrue onFalse test, draft => draft.addTest onTrue onFalse test
  | wire guard, draft => draft.wire guard

def toRawGraph (draft : Draft) : RawGraph Element :=
  ⟨draft.blocks, draft.here⟩

end Draft

end FlowLint
