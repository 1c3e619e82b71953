import FlowLint.Flow.Build
import FlowLint.Flow.Diagram
import FlowLint.Proofs.Flow.Failure
import FlowLint.Proofs.Flow.Search

/-!
The flowchart of a graph can be read back. Whatever text is shown in the boxes, every line of the
chart is one line, tells what it stands for, and names the boxes it is about; so two graphs with one
chart agree in their sizes, their successors and the sides of their branches.
-/
namespace FlowLint
set_option autoImplicit true

namespace Diagram

/-- Characters that neither end a label nor break it: no double quotes and no line feeds, and angle
brackets only in the mark of a line break. -/
inductive Harmless : List Char → Prop
  | nil : Harmless []
  | char {c : Char} {cs : List Char} (hc : c ∉ ['"', '<', '>', '\n']) (h : Harmless cs) :
      Harmless (c :: cs)
  | lineBreak {cs : List Char} (h : Harmless cs) : Harmless ("<br/>".toList ++ cs)

theorem Harmless.append (h : Harmless cs) (h' : Harmless cs') : Harmless (cs ++ cs') := by
  induction h with
  | nil => exact h'
  | char hc _ ih => exact .char hc ih
  | lineBreak _ ih =>
    rw [List.append_assoc]
    exact .lineBreak ih

theorem harmless_of_all (h : cs.all (fun c => not (['"', '<', '>', '\n'].contains c)) = true) :
    Harmless cs := by
  induction cs with
  | nil => exact .nil
  | cons c cs ih =>
    obtain ⟨hc, hcs⟩ := Bool.and_eq_true_iff.1 h
    exact .char (by simpa using hc) (ih hcs)

theorem harmless_escape (c : Char) : Harmless (escape c) := by
  unfold escape
  split
  · exact harmless_of_all rfl
  · exact harmless_of_all rfl
  · exact harmless_of_all rfl
  · exact .lineBreak .nil
  · next hquote hless hgreater hfeed =>
    exact .char (by simpa using ⟨hquote, hless, hgreater, hfeed⟩) .nil

theorem harmless_quote (content : String) : Harmless (quote content).toList := by
  unfold quote
  split
  · exact harmless_of_all rfl
  · rw [String.toList_ofList]
    induction content.toList with
    | nil => exact .nil
    | cons c cs ih => exact (harmless_escape c).append ih

theorem Harmless.not_mem_feed (h : Harmless cs) : '\n' ∉ cs := by
  induction h with
  | nil => exact List.not_mem_nil
  | char hc _ ih =>
    intro hm
    rcases List.mem_cons.1 hm with rfl | hm
    · exact hc (by decide)
    · exact ih hm
  | lineBreak _ ih =>
    intro hm
    rcases List.mem_append.1 hm with hm | hm
    · exact absurd hm (by decide)
    · exact ih hm

def blockLine (index : Nat) (label : String) : String :=
  "    node" ++ toString index ++ ("[\"" ++ label ++ "\"]")

def exitLine (index : Nat) : String :=
  "    node" ++ toString index ++ "((\"End\"))"

/-- What stands in an arrow for the side of a branch. -/
def sideMark : Option Bool → String
  | none => "-->"
  | some true => "-->|\"true\"|"
  | some false => "-->|\"false\"|"

/-- The line of an arrow between two boxes. -/
def wayLine (source : Nat) (side : Option Bool) (target : Nat) : String :=
  "    node" ++ toString source ++ sideMark side ++ "node" ++ toString target

/-- The lines in front of the arrows: a header, a line for every block, and one for the exit. -/
def boxLines (size : Nat) (label : Nat → String) : List String :=
  "flowchart TD" :: (List.range size).map (fun index => blockLine index (label index)) ++
    [exitLine size]

theorem forall_boxLines {motive : String → Prop} {size : Nat} {label : Nat → String}
    (header : motive "flowchart TD") (block : ∀ index, motive (blockLine index (label index)))
    (exit : motive (exitLine size)) : ∀ line ∈ boxLines size label, motive line := by
  intro line hm
  rcases List.mem_append.1 hm with hm | hm
  · rcases List.mem_cons.1 hm with rfl | hm
    · exact header
    · obtain ⟨index, -, rfl⟩ := List.mem_map.1 hm
      exact block index
  · exact List.mem_singleton.1 hm ▸ exit

theorem isDigit_of_mem_toString (h : c ∈ (toString (n : Nat)).toList) : c.isDigit = true := by
  rw [Nat.toString_eq_ofList_toDigits, String.toList_ofList] at h
  exact Nat.isDigit_of_mem_toDigits (by decide) (by decide) h

theorem toString_injective (h : (toString (m : Nat)).toList = (toString n).toList) : m = n := by
  simp only [Nat.toString_eq_ofList_toDigits, String.toList_ofList] at h
  rw [← Nat.ofDigitChars_ten_toDigits (n := m), h, Nat.ofDigitChars_ten_toDigits]

theorem dropWhile_numeral (n : Nat) (hc : c.isDigit = false) (cs : List Char) :
    ((toString n).toList ++ c :: cs).dropWhile Char.isDigit = c :: cs := by
  rw [List.dropWhile_append_of_pos fun d hd => isDigit_of_mem_toString hd]
  simp [hc]

/-- A numeral ends where the digits do. -/
theorem numeral_append_inj (hc : c.isDigit = false) (hd : d.isDigit = false)
    (h : (toString (m : Nat)).toList ++ c :: cs = (toString n).toList ++ d :: ds) :
    m = n ∧ c :: cs = d :: ds := by
  have hrest : c :: cs = d :: ds := by
    rw [← dropWhile_numeral m hc cs, h, dropWhile_numeral n hd ds]
  rw [hrest] at h
  exact ⟨toString_injective (List.append_cancel_right h), hrest⟩

/-- What a line is about: the first character behind the number of its box. -/
def mark (line : List Char) : Option Char :=
  ((line.drop 8).dropWhile Char.isDigit).head?

theorem mark_numeral (n : Nat) (hc : c.isDigit = false) (cs : List Char) :
    mark ("    node".toList ++ (toString n).toList ++ c :: cs) = some c := by
  have hdrop : ("    node".toList ++ (toString n).toList ++ c :: cs).drop 8 =
      (toString n).toList ++ c :: cs := by
    rw [List.append_assoc]
    rfl
  rw [mark, hdrop, dropWhile_numeral n hc]
  rfl

theorem mark_blockLine (index : Nat) (label : String) :
    mark (blockLine index label).toList = some '[' := by
  have h := mark_numeral index (c := '[') (by decide) ('"' :: label.toList ++ "\"]".toList)
  simpa [blockLine] using h

theorem mark_exitLine (index : Nat) : mark (exitLine index).toList = some '(' := by
  have h := mark_numeral index (c := '(') (by decide) "(\"End\"))".toList
  simpa [exitLine] using h

theorem exists_sideMark (side : Option Bool) : ∃ cs, (sideMark side).toList = '-' :: cs := by
  rcases side with _ | _ | _ <;> exact ⟨_, rfl⟩

theorem mark_wayLine (source : Nat) (side : Option Bool) (target : Nat) :
    mark (wayLine source side target).toList = some '-' := by
  obtain ⟨cs, hcs⟩ := exists_sideMark side
  have h := mark_numeral source (c := '-') (by decide)
    (cs ++ "node".toList ++ (toString target).toList)
  simpa [wayLine, hcs] using h

theorem sideMark_append_inj {side side' : Option Bool}
    (h : (sideMark side).toList ++ ("node".toList ++ cs) =
      (sideMark side').toList ++ ("node".toList ++ cs')) : side = side' ∧ cs = cs' := by
  rcases side with _ | _ | _ <;> rcases side' with _ | _ | _ <;> simp [sideMark] at h ⊢ <;> exact h

/-- The line of an arrow determines the boxes at its ends and its side. -/
theorem wayLine_inj {source source' target target' : Nat} {side side' : Option Bool}
    (h : (wayLine source side target).toList = (wayLine source' side' target').toList) :
    source = source' ∧ side = side' ∧ target = target' := by
  obtain ⟨cs, hcs⟩ := exists_sideMark side
  obtain ⟨cs', hcs'⟩ := exists_sideMark side'
  simp only [wayLine, String.toList_append, List.append_assoc, hcs, hcs', List.cons_append] at h
  obtain ⟨hsource, hrest⟩ := numeral_append_inj (by decide) (by decide)
    (List.append_cancel_left h)
  rw [← List.cons_append, ← List.cons_append, ← hcs, ← hcs'] at hrest
  obtain ⟨hside, htarget⟩ := sideMark_append_inj hrest
  exact ⟨hsource, hside, toString_injective htarget⟩

end Diagram

/-- The arrows out of a block: one for each distinct successor, with their sides if there are two of
them. -/
inductive Edge.Draws : Edge → List (Option Bool × Vertex) → Prop
  | single {edge : Edge} {target : Vertex} (h : edge.successors = [target]) :
      Draws edge [(none, target)]
  | both {onTrue onFalse : Vertex} (h : onTrue ≠ onFalse) :
      Draws (.branch onTrue onFalse) [(some true, onTrue), (some false, onFalse)]

theorem Edge.Draws.within {edge : Edge} (h : edge.Draws arrows)
    (hw : ∀ target ∈ edge.targets, target.Within n) : ∀ arrow ∈ arrows, arrow.2.Within n := by
  cases h with
  | @single _ target h =>
    intro arrow hm
    rw [List.mem_singleton.1 hm]
    exact hw target (mem_successors.1 (h ▸ List.mem_singleton_self _))
  | both => simpa [targets] using hw

/-- Two edges with the same arrows have the same successors, and are the same branch if there are
two of them. -/
theorem Edge.Draws.agree {edge edge' : Edge} (h : edge.Draws arrows) (h' : edge'.Draws arrows) :
    edge.successors = edge'.successors ∧ (edge.successors.length = 2 → edge = edge') := by
  cases h with
  | single h =>
    cases h' with
    | single h' => exact ⟨h.trans h'.symm, fun hl => by simp [h] at hl⟩
  | both h =>
    cases h' with
    | both h' => exact ⟨rfl, fun _ => rfl⟩

namespace Graph

open Diagram

variable {α : Type} {graph graph' : Graph α}

def wayLines (graph : Graph α) (arrows : Nat → List (Option Bool × Vertex)) : List String :=
  (List.range graph.size).flatMap fun index =>
    (arrows index).map fun arrow => wayLine index arrow.1 (graph.boxIndex arrow.2)

theorem forall_wayLines {motive : String → Prop} {arrows : Nat → List (Option Bool × Vertex)}
    (h : ∀ source side target, motive (wayLine source side target)) :
    ∀ line ∈ graph.wayLines arrows, motive line := by
  intro line hm
  obtain ⟨index, -, hm⟩ := List.mem_flatMap.1 hm
  obtain ⟨arrow, -, rfl⟩ := List.mem_map.1 hm
  exact h _ _ _

/-- The text of a flowchart, line by line, with a label for every block and the arrows out of it. -/
structure Drawn (graph : Graph α) (text : String) (label : Nat → String)
    (arrows : Nat → List (Option Bool × Vertex)) : Prop where
  harmless : ∀ index, Harmless (label index).toList
  draws : ∀ (index : Nat) (block : BasicBlock α), graph.blocks[index]? = some block →
    block.edge.Draws (arrows index)
  lines : text.toList.splitOn '\n' =
    (boxLines graph.size label ++ graph.wayLines arrows).map String.toList

theorem map_zipIdx_eq (xs : List α) {g : α → Nat → β} {f : Nat → β}
    (h : ∀ i x, xs[i]? = some x → f i = g x i) :
    xs.zipIdx.map (fun x => g x.1 x.2) = (List.range xs.length).map f := by
  apply List.ext_getElem
  · simp
  · intro i hi hi'
    have hlt : i < xs.length := by simpa using hi
    simp [h i xs[i] (List.getElem?_eq_getElem hlt)]

theorem filter_flatMap_range {f : Nat → List β} {key : β → Nat}
    (h : ∀ i, ∀ b ∈ f i, key b = i) (n i : Nat) :
    ((List.range n).flatMap f).filter (key · == i) = if i < n then f i else [] := by
  induction n with
  | zero => simp
  | succ n ih =>
    rw [List.range_succ, List.flatMap_append, List.filter_append, ih, List.flatMap_singleton]
    by_cases he : n = i
    · subst he
      have hall : (f n).filter (key · == n) = f n :=
        List.filter_eq_self.2 fun b hb => by simp [h n b hb]
      simp [hall]
    · have hnone : (f n).filter (key · == i) = [] :=
        List.filter_eq_nil_iff.2 fun b hb => by simp [h n b hb, he]
      rw [hnone, List.append_nil]
      split <;> split <;> first | rfl | omega

def arrowsAt (graph : Graph α) (index : Nat) : List (Option Bool × Vertex) :=
  graph.blocks[index]?.elim [] fun block =>
    match block.edge with
    | .always target => [(none, target)]
    | .branch onTrue onFalse =>
      if onTrue = onFalse then [(none, onTrue)] else [(some true, onTrue), (some false, onFalse)]

theorem draws_arrowsAt {block : BasicBlock α} (h : graph.blocks[index]? = some block) :
    block.edge.Draws (graph.arrowsAt index) := by
  rw [arrowsAt, h, Option.elim_some]
  cases block.edge with
  | always target => exact .single rfl
  | branch onTrue onFalse =>
    dsimp only
    split
    · next he => exact .single (by simp [Edge.successors, he])
    · next hne => exact .both hne

def sideLabel : Option Bool → String
  | none => ""
  | some true => "true"
  | some false => "false"

def arrowFrom (graph : Graph α) (index : Nat) (arrow : Option Bool × Vertex) : Arrow :=
  ⟨index, graph.boxIndex arrow.2, sideLabel arrow.1⟩

theorem arrowLine_arrowFrom (graph : Graph α) (index : Nat) (arrow : Option Bool × Vertex) :
    arrowLine (graph.arrowFrom index arrow) =
      wayLine index arrow.1 (graph.boxIndex arrow.2) := by
  rcases arrow with ⟨_ | _ | _, target⟩ <;> rfl

theorem edgeArrows_eq {block : BasicBlock α} (h : graph.blocks[index]? = some block) :
    (graph.arrowsAt index).map (graph.arrowFrom index) = graph.edgeArrows index block.edge := by
  rw [arrowsAt, h, Option.elim_some]
  cases block.edge with
  | always target => rfl
  | branch onTrue onFalse =>
    dsimp only [edgeArrows]
    split <;> rfl

variable [Ranged α]

def labelAt (graph : Graph α) (source : String) (index : Nat) : String :=
  quote (graph.blocks[index]?.elim "" fun block =>
    "\n".intercalate (block.elements.map fun e => (Ranged.range e).slice source))

theorem harmless_labelAt (graph : Graph α) (source : String) (index : Nat) :
    Harmless (graph.labelAt source index).toList :=
  harmless_quote _

theorem diagram_arrows (graph : Graph α) (source : String) :
    (graph.diagram source).arrows =
      (List.range graph.size).flatMap fun index =>
        (graph.arrowsAt index).map (graph.arrowFrom index) := by
  simp only [diagram, List.flatMap_def]
  rw [map_zipIdx_eq graph.blocks (g := fun block index => graph.edgeArrows index block.edge)
    fun index block h => edgeArrows_eq h]
  rfl

theorem boxLines_diagram (graph : Graph α) (source : String) :
    "flowchart TD" ::
      (graph.diagram source).boxes.zipIdx.map (fun (box, index) => boxLine box index) =
      boxLines graph.size (graph.labelAt source) := by
  have hblocks := map_zipIdx_eq graph.blocks
    (g := fun block index => boxLine ⟨.rectangle, "\n".intercalate
      (block.elements.map fun e => (Ranged.range e).slice source)⟩ index)
    (f := fun index => blockLine index (graph.labelAt source index))
    fun index block h => by
      simp only [labelAt, h, Option.elim_some]
      rfl
  have hexit : boxLine ⟨.circle, "End"⟩ graph.size = exitLine graph.size := by
    have htext : Box.text ⟨.circle, "End"⟩ = "((\"End\"))" := by decide
    exact congrArg ("    node" ++ toString graph.size ++ ·) htext
  rw [diagram, List.zipIdx_append, List.map_append, List.zipIdx_map, List.map_map, boxLines,
    show graph.size = graph.blocks.length from rfl, ← hblocks, List.cons_append]
  refine congrArg (_ :: _ ++ ·) ?_
  rw [List.length_map, Nat.zero_add]
  exact congrArg (fun line => [line]) hexit

theorem lines_diagram (graph : Graph α) (source : String) :
    (graph.diagram source).lines =
      boxLines graph.size (graph.labelAt source) ++ graph.wayLines graph.arrowsAt := by
  have hsource : ∀ index, ∀ arrow ∈ (graph.arrowsAt index).map (graph.arrowFrom index),
      arrow.source = index := by
    intro index arrow hm
    obtain ⟨_, -, rfl⟩ := List.mem_map.1 hm
    rfl
  have hlength : (graph.diagram source).boxes.length = graph.size + 1 := by
    simp [diagram, size]
  have harrows : ∀ index, (((graph.diagram source).arrows.filter (·.source == index)).map
      arrowLine) = if index < graph.size then (graph.arrowsAt index).map fun arrow =>
        wayLine index arrow.1 (graph.boxIndex arrow.2) else [] := by
    intro index
    rw [diagram_arrows, filter_flatMap_range hsource]
    split
    · rw [List.map_map]
      exact List.map_congr_left fun arrow _ => arrowLine_arrowFrom graph index arrow
    · rfl
  have hways : ((List.range (graph.size + 1)).flatMap fun index =>
      ((graph.diagram source).arrows.filter (·.source == index)).map arrowLine) =
      graph.wayLines graph.arrowsAt := by
    rw [List.range_succ, List.flatMap_append, List.flatMap_singleton, harrows,
      if_neg (Nat.lt_irrefl _), List.append_nil]
    refine List.flatMap_congr fun index hm => ?_
    rw [harrows, if_pos (List.mem_range.1 hm)]
  rw [lines, hlength, hways, ← boxLines_diagram]

theorem not_mem_feed_numeral (n : Nat) : '\n' ∉ Nat.toDigits 10 n := by
  intro hm
  have hd := Nat.isDigit_of_mem_toDigits (by decide) (by decide) hm
  exact absurd hd (by decide)

theorem not_mem_feed_blockLine (h : Harmless label.toList) (index : Nat) :
    '\n' ∉ (blockLine index label).toList := by
  simp [blockLine, not_mem_feed_numeral, h.not_mem_feed]

theorem not_mem_feed_exitLine (index : Nat) : '\n' ∉ (exitLine index).toList := by
  simp [exitLine, not_mem_feed_numeral]

theorem not_mem_feed_wayLine (source : Nat) (side : Option Bool) (target : Nat) :
    '\n' ∉ (wayLine source side target).toList := by
  rcases side with _ | _ | _ <;> simp [wayLine, sideMark, not_mem_feed_numeral]

/-- The chart of a graph, whatever source its elements are taken from. -/
theorem drawn_diagram (graph : Graph α) (source : String) :
    graph.Drawn (graph.diagram source).draw (graph.labelAt source) graph.arrowsAt where
  harmless := graph.harmless_labelAt source
  draws index block h := draws_arrowsAt h
  lines := by
    rw [← lines_diagram graph source, draw, String.toList_intercalate]
    refine List.splitOn_intercalate '\n' (fun line hm => ?_) (by simp [lines])
    obtain ⟨text, ht, rfl⟩ := List.mem_map.1 hm
    rw [lines_diagram] at ht
    rcases List.mem_append.1 ht with ht | ht
    · exact forall_boxLines (motive := fun line => '\n' ∉ line.toList) (by decide)
        (fun index => not_mem_feed_blockLine (graph.harmless_labelAt source index) index)
        (not_mem_feed_exitLine _) text ht
    · exact forall_wayLines (motive := fun line => '\n' ∉ line.toList) not_mem_feed_wayLine text ht

end Graph

theorem append_inj_of_test {p : β → Bool} {xs xs' ys ys' : List β} (h : xs ++ ys = xs' ++ ys')
    (hx : ∀ a ∈ xs, p a = false) (hx' : ∀ a ∈ xs', p a = false) (hy : ∀ a ∈ ys, p a = true)
    (hy' : ∀ a ∈ ys', p a = true) : xs = xs' ∧ ys = ys' := by
  have hfilter : ∀ {us vs : List β}, (∀ a ∈ us, p a = false) → (∀ a ∈ vs, p a = true) →
      (us ++ vs).filter p = vs := by
    intro us vs hu hv
    rw [List.filter_append, List.filter_eq_nil_iff.2 fun a ha => by simp [hu a ha],
      List.filter_eq_self.2 hv, List.nil_append]
  have he : ys = ys' := by rw [← hfilter hx hy, h, hfilter hx' hy']
  subst he
  exact ⟨List.append_cancel_right h, rfl⟩

namespace Graph

open Diagram

variable {α β : Type} {graph : Graph α} {graph' : Graph β} {text : String}
  {label label' : Nat → String} {arrows arrows' : Nat → List (Option Bool × Vertex)}

def vertexAt (size box : Nat) : Vertex :=
  if box < size then .block box else .exit

theorem vertexAt_boxIndex {vertex : Vertex} (h : vertex.Within graph.size) :
    vertexAt graph.size (graph.boxIndex vertex) = vertex := by
  cases vertex with
  | block index => exact if_pos h
  | exit => exact if_neg (Nat.lt_irrefl _)

/-- The arrows of a chart, with the numbers of the boxes at their ends. -/
def wayList (graph : Graph α) (arrows : Nat → List (Option Bool × Vertex)) :
    List (Nat × Option Bool × Nat) :=
  (List.range graph.size).flatMap fun index =>
    (arrows index).map fun arrow => (index, arrow.1, graph.boxIndex arrow.2)

theorem map_wayLines (graph : Graph α) (arrows : Nat → List (Option Bool × Vertex)) :
    (graph.wayLines arrows).map String.toList =
      (graph.wayList arrows).map fun way => (wayLine way.1 way.2.1 way.2.2).toList := by
  simp [wayList, wayLines, List.map_flatMap, Function.comp_def]

/-- The arrows out of a block are those in the list that leave its box. -/
theorem arrows_eq_of_wayList (hw : ∀ arrow ∈ arrows index, arrow.2.Within graph.size)
    (hi : index < graph.size) :
    (((graph.wayList arrows).filter (·.1 == index)).map fun way =>
      (way.2.1, vertexAt graph.size way.2.2)) = arrows index := by
  have hk : ∀ i, ∀ way ∈ (arrows i).map fun arrow => (i, arrow.1, graph.boxIndex arrow.2),
      way.1 = i := by
    intro i way hm
    obtain ⟨_, -, rfl⟩ := List.mem_map.1 hm
    rfl
  rw [wayList, filter_flatMap_range hk, if_pos hi, List.map_map]
  refine (List.map_congr_left fun arrow hm => ?_).trans (List.map_id _)
  simp [vertexAt_boxIndex (hw arrow hm)]

theorem Drawn.within (h : graph.Drawn text label arrows) (hc : graph.Closed)
    (hi : index < graph.size) : ∀ arrow ∈ arrows index, arrow.2.Within graph.size := by
  have hb := List.getElem?_eq_getElem hi
  refine (h.draws index _ hb).within fun target ht => hc (.block index) target ?_
  rw [successors, hb]
  exact Edge.mem_successors.2 ht

theorem mark_of_mem_boxLines (size : Nat) (label : Nat → String) :
    ∀ line ∈ (boxLines size label).map String.toList, (mark line == some '-') = false := by
  refine List.forall_mem_map.2 (forall_boxLines
    (motive := fun line => (mark line.toList == some '-') = false) (by decide) (fun index => ?_) ?_)
  · rw [mark_blockLine]
    rfl
  · rw [mark_exitLine]
    rfl

theorem mark_of_mem_wayLines (graph : Graph α) (arrows : Nat → List (Option Bool × Vertex)) :
    ∀ line ∈ (graph.wayLines arrows).map String.toList, (mark line == some '-') = true := by
  refine List.forall_mem_map.2 (forall_wayLines
    (motive := fun line => (mark line.toList == some '-') = true) fun source side target => ?_)
  rw [mark_wayLine]
  rfl

/-- One text is the chart of graphs of one size, and with the same arrows. -/
theorem Drawn.agree (h : graph.Drawn text label arrows) (h' : graph'.Drawn text label' arrows')
    (hc : graph.Closed) (hc' : graph'.Closed) :
    graph.size = graph'.size ∧ ∀ index < graph.size, arrows index = arrows' index := by
  have hlines := h.lines.symm.trans h'.lines
  rw [List.map_append, List.map_append] at hlines
  obtain ⟨hbox, hway⟩ := append_inj_of_test hlines (mark_of_mem_boxLines _ _)
    (mark_of_mem_boxLines _ _) (mark_of_mem_wayLines _ _) (mark_of_mem_wayLines _ _)
  have hsize : graph.size = graph'.size := by
    have hl := congrArg List.length hbox
    simpa [boxLines] using hl
  have hlist : graph.wayList arrows = graph'.wayList arrows' := by
    rw [map_wayLines, map_wayLines] at hway
    refine List.map_injective_iff.2 (fun way way' he => ?_) hway
    obtain ⟨hsource, hside, htarget⟩ := wayLine_inj he
    exact Prod.ext hsource (Prod.ext hside htarget)
  refine ⟨hsize, fun index hi => ?_⟩
  have hi' : index < graph'.size := hsize ▸ hi
  rw [← arrows_eq_of_wayList (h.within hc hi) hi, ← arrows_eq_of_wayList (h'.within hc' hi') hi',
    hlist, hsize]

/-- Two graphs of one size have the same successors if their blocks do, one by one. -/
theorem successors_ext {graph' : Graph α} (hsize : graph.size = graph'.size)
    (h : ∀ (index : Nat) (block block' : BasicBlock α), graph.blocks[index]? = some block →
      graph'.blocks[index]? = some block' → block.edge.successors = block'.edge.successors)
    (vertex : Vertex) : graph.successors vertex = graph'.successors vertex := by
  cases vertex with
  | exit => rfl
  | block index =>
    by_cases hi : index < graph.size
    · have hb := List.getElem?_eq_getElem hi
      have hb' := List.getElem?_eq_getElem (hsize ▸ hi : index < graph'.size)
      rw [Graph.successors, Graph.successors, hb, hb']
      exact h index _ _ hb hb'
    · have hi' : ¬ index < graph'.size := hsize ▸ hi
      have hb : graph.blocks[index]? = none := List.getElem?_eq_none (Nat.le_of_not_lt hi)
      have hb' : graph'.blocks[index]? = none := List.getElem?_eq_none (Nat.le_of_not_lt hi')
      rw [Graph.successors, Graph.successors, hb, hb']

end Graph

namespace Body

variable {body : Body} {graph : Graph Element}

theorem graph_closed (h : body.graph options = .ok graph) : graph.Closed := by
  obtain ⟨_, _, _, -, hspliced, hfreeze⟩ := exists_spliced h
  exact (RawGraph.frozenTo_of_freeze hfreeze).closed hspliced.inRange

/-- The flowchart of a graph has a line for every block and one for the exit, and then for every
block a line for each distinct successor, whatever text the blocks show. Graphs with the same
flowchart have the same size and the same successors, and where a block has two of them the same
side of the branch leads to each. -/
theorem graph_drawn (h : body.graph options = .ok graph) (source : String) :
    (∃ label arrows, graph.Drawn (graph.diagram source).draw label arrows) ∧
    ∀ (body' : Body) (options' : FlowOptions) (graph' : Graph Element) (source' : String),
      body'.graph options' = .ok graph' →
      (graph'.diagram source').draw = (graph.diagram source).draw →
      graph.size = graph'.size ∧
      (∀ vertex, graph.successors vertex = graph'.successors vertex) ∧
      ∀ (index : Nat) (block block' : BasicBlock Element), graph.blocks[index]? = some block →
        graph'.blocks[index]? = some block' → block.edge.successors.length = 2 →
        block.edge = block'.edge := by
  have hdrawn := graph.drawn_diagram source
  refine ⟨⟨_, _, hdrawn⟩, fun body' options' graph' source' h' htext => ?_⟩
  have hdrawn' := graph'.drawn_diagram source'
  rw [htext] at hdrawn'
  obtain ⟨hsize, harrows⟩ := hdrawn.agree hdrawn' (graph_closed h) (graph_closed h')
  have hagree : ∀ (index : Nat) (block block' : BasicBlock Element),
      graph.blocks[index]? = some block → graph'.blocks[index]? = some block' →
      block.edge.successors = block'.edge.successors ∧
        (block.edge.successors.length = 2 → block.edge = block'.edge) := by
    intro index block block' hb hb'
    have hi := (List.getElem?_eq_some_iff.1 hb).1
    exact (harrows index hi ▸ hdrawn.draws index block hb).agree (hdrawn'.draws index block' hb')
  refine ⟨hsize, Graph.successors_ext hsize fun index block block' hb hb' => ?_,
    fun index block block' hb hb' => (hagree index block block' hb hb').2⟩
  exact (hagree index block block' hb hb').1

/-- A branch on a text with quotes and brackets, with a body for the other side or without:
`if ("<b>") x;` and `if ("<b>") x; else ;` -/
def quotedTest (orElse : Option Stmt) : Body :=
  ⟨.script, ⟨0, 20⟩, 0, [.ifStmt ⟨0, 20⟩ (.string ⟨4, 9⟩ "\"<b>\"" "<b>")
    (.expression ⟨11, 13⟩ (.name ⟨11, 12⟩ "x")) orElse]⟩

theorem graph_drawn_quotedTest :
    ∃ graph graph', (quotedTest none).graph {} = .ok graph ∧
      (quotedTest (some (.empty ⟨19, 20⟩))).graph {} = .ok graph' ∧
      (graph.diagram "if (\"<b>\") x;").lines =
        ["flowchart TD", "    node0[\"#quot;#lt;b#gt;#quot;\"]", "    node1[\"x\"]",
          "    node2((\"End\"))", "    node0-->|\"true\"|node1", "    node0-->|\"false\"|node2",
          "    node1-->node2"] ∧
      (∃ label arrows, graph.Drawn (graph.diagram "if (\"<b>\") x;").draw label arrows) ∧
      ∀ vertex, graph.successors vertex = graph'.successors vertex := by
  obtain ⟨graph, h, hlines⟩ : ∃ graph, (quotedTest none).graph {} = .ok graph ∧
      (graph.diagram "if (\"<b>\") x;").lines =
        ["flowchart TD", "    node0[\"#quot;#lt;b#gt;#quot;\"]", "    node1[\"x\"]",
          "    node2((\"End\"))", "    node0-->|\"true\"|node1", "    node0-->|\"false\"|node2",
          "    node1-->node2"] :=
    ⟨_, by cbv, by decide⟩
  obtain ⟨graph', h', hlines'⟩ : ∃ graph', (quotedTest (some (.empty ⟨19, 20⟩))).graph {} =
      .ok graph' ∧ (graph'.diagram "if (\"<b>\") x; else ;").lines =
        ["flowchart TD", "    node0[\"#quot;#lt;b#gt;#quot;\"]", "    node1[\"x\"]",
          "    node2((\"End\"))", "    node0-->|\"true\"|node1", "    node0-->|\"false\"|node2",
          "    node1-->node2"] :=
    ⟨_, by cbv, by decide⟩
  have htext : (graph'.diagram "if (\"<b>\") x; else ;").draw =
      (graph.diagram "if (\"<b>\") x;").draw :=
    congrArg "\n".intercalate (hlines'.trans hlines.symm)
  obtain ⟨hdrawn, hagree⟩ := graph_drawn h "if (\"<b>\") x;"
  exact ⟨graph, graph', h, h', hlines, hdrawn, (hagree _ _ _ _ h' htext).2.1⟩

end Body

end FlowLint
