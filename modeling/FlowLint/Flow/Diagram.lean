import FlowLint.Flow.Graph
import FlowLint.Tree.Walk

namespace FlowLint

namespace Diagram

inductive Shape
  | rectangle
  | circle
deriving DecidableEq, Repr, Inhabited

structure Box where
  shape : Shape
  content : String
deriving DecidableEq, Repr

/-- An arrow between two boxes by their numbers; an empty label is not drawn. -/
structure Arrow where
  source : Nat
  target : Nat
  label : String
deriving DecidableEq, Repr

/-- A character of a label, with those that would end or break it replaced. -/
def escape : Char → List Char
  | '"' => "#quot;".toList
  | '<' => "#lt;".toList
  | '>' => "#gt;".toList
  | '\n' => "<br/>".toList
  | c => [c]

def quote (content : String) : String :=
  if content.isEmpty then "empty" else String.ofList (content.toList.flatMap escape)

namespace Box

def text (box : Box) : String :=
  match box.shape with
  | .rectangle => "[\"" ++ quote box.content ++ "\"]"
  | .circle => "((\"" ++ quote box.content ++ "\"))"

end Box

namespace Arrow

def text (arrow : Arrow) : String :=
  if arrow.label.isEmpty then "-->" else "-->|\"" ++ arrow.label ++ "\"|"

end Arrow

end Diagram

/-- Boxes, numbered in order, and arrows between them. -/
structure Diagram where
  boxes : List Diagram.Box
  arrows : List Diagram.Arrow
deriving DecidableEq, Repr

namespace Diagram

def boxLine (box : Box) (index : Nat) : String :=
  s!"    node{index}{box.text}"

def arrowLine (arrow : Arrow) : String :=
  s!"    node{arrow.source}{arrow.text}node{arrow.target}"

/-- A header, a line for every box, and a line for every arrow, by the box it leaves. -/
def lines (diagram : Diagram) : List String :=
  "flowchart TD" ::
    diagram.boxes.zipIdx.map (fun (box, index) => boxLine box index) ++
    (List.range diagram.boxes.length).flatMap fun index =>
      (diagram.arrows.filter (·.source == index)).map arrowLine

def draw (diagram : Diagram) : String :=
  "\n".intercalate diagram.lines

end Diagram

namespace Graph

variable {α : Type}

/-- The exit is drawn behind the blocks. -/
def boxIndex (graph : Graph α) : Vertex → Nat
  | .block index => index
  | .exit => graph.size

/-- A branch whose sides agree is drawn as one arrow. -/
def edgeArrows (graph : Graph α) (source : Nat) : Edge → List Diagram.Arrow
  | .always target => [⟨source, graph.boxIndex target, ""⟩]
  | .branch onTrue onFalse =>
    if onTrue = onFalse then [⟨source, graph.boxIndex onTrue, ""⟩]
    else [⟨source, graph.boxIndex onTrue, "true"⟩, ⟨source, graph.boxIndex onFalse, "false"⟩]

/-- The flowchart of a graph; a block shows the source of its elements, one below the other. -/
def diagram [Ranged α] (graph : Graph α) (source : String) : Diagram where
  boxes :=
    graph.blocks.map (fun block =>
      ⟨.rectangle, "\n".intercalate (block.elements.map fun e => (Ranged.range e).slice source)⟩) ++
    [⟨.circle, "End"⟩]
  arrows := graph.blocks.zipIdx.flatMap fun (block, index) => graph.edgeArrows index block.edge

end Graph

end FlowLint
