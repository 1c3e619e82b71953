import FlowLint.Proofs.Flow.Progress
import FlowLint.Proofs.Flow.Growth
import FlowLint.Proofs.Flow.Reach
import FlowLint.Proofs.Flow.Unbroken

/-!
The exit is in reach of every block, also of dead ones, unless a loop has no test. A block is added
behind what it leads to, and of the two ways out of a guard the one that leaves the loop is there
before it; so some way out of each block leads to an older one.
-/
namespace FlowLint
set_option autoImplicit true

namespace Draft

variable {roles : List (Element × Role)} {draft later : Draft}

/-- Some way out of each block leads to the exit or to an older block. -/
def LeadsBack (draft : Draft) : Prop :=
  ∀ (index : Nat) (block : RawBlock Element), draft.blocks[index]? = some block →
    ∃ target ∈ block.edge.targets, target.Within index

theorem LeadsBack.prepend (h : draft.LeadsBack) (element : Element) :
    (draft.prepend element).LeadsBack :=
  of_getElem?_modify (fun index block hb _ => h index block hb) fun block hb => h _ block hb

theorem LeadsBack.wire (h : draft.LeadsBack) (guard : Nat) : (draft.wire guard).LeadsBack := by
  apply of_getElem?_modify fun index block hb _ => h index block hb
  intro block hb
  obtain ⟨target, ht, hw⟩ := h guard block hb
  exact ⟨target, block.targets_enterLoop _ ht, hw⟩

theorem LeadsBack.concat {added : RawBlock Element} (h : draft.LeadsBack)
    (ht : target ∈ added.edge.targets) (hw : target.Within draft.blocks.length) :
    ∀ (index : Nat) (block : RawBlock Element), (draft.blocks ++ [added])[index]? = some block →
      ∃ target ∈ block.edge.targets, target.Within index :=
  of_getElem?_concat h ⟨target, ht, hw⟩

theorem Progresses.leadsBack (hn : ∀ element, (element, Role.endless) ∉ roles)
    (h : draft.Progresses roles later) (hd : draft.LeadsBack) : later.LeadsBack := by
  induction h with
  | refl => exact hd
  | prepend _ _ ih => exact (ih hd).prepend _
  | enter ht _ ih => exact (ih hd).concat (List.mem_singleton_self _) ht
  | close hr hc ht _ ih =>
    rw [enterBlock_prepend]
    cases hc with
    | jump | leave =>
      exact (ih hd).concat (List.mem_singleton_self _) (ht _ (List.mem_singleton_self _))
    | test => exact (ih hd).concat (List.mem_cons_self ..) (ht _ (List.mem_cons_self ..))
  | choose _ ht _ _ ih => exact (ih hd).concat (List.mem_cons_self ..) ht
  | @loop head role edge draft later built hr hg ht _ _ ih ih' =>
    cases hg with
    | guard after =>
      -- The body of the loop is added later, but what follows the loop is there already.
      have hguard : (later.addGuard (.branch none after) head).LeadsBack :=
        (ih hd).concat (List.mem_singleton_self after) (ht after (List.mem_singleton_self after))
      exact (ih' hguard).wire _
    | endless => exact (hn head hr).elim

theorem initial_leadsBack : initial.LeadsBack := by
  intro index block hb
  obtain rfl : block = .ofEdge (.jump (some .exit)) := by
    have hm := List.mem_of_getElem? hb
    simpa [initial] using hm
  exact ⟨.exit, List.mem_singleton_self _, trivial⟩

open Relation in
/-- Going back again and again ends at the exit. -/
theorem LeadsBack.reaches_exit (h : draft.LeadsBack) :
    ∀ index < draft.blocks.length, draft.Reaches (.block index) .exit := by
  intro index
  induction index using Nat.strongRecOn with
  | ind index ih =>
    intro hlt
    obtain ⟨target, ht, hw⟩ := h index _ (List.getElem?_eq_getElem hlt)
    have hedge : draft.edge? index = some draft.blocks[index].edge := by
      rw [edge?, List.getElem?_eq_getElem hlt, Option.map_some]
    have hstep := reaches_of_mem_targets hedge ht
    cases target with
    | exit => exact hstep
    | block older => exact hstep.trans (ih older hw (Nat.lt_trans hw hlt))

end Draft

namespace RawGraph

open Relation

variable {α : Type} {graph result : RawGraph α}

/-- The exit is reached from every block of a graph under construction. -/
def AllEnd (graph : RawGraph α) : Prop :=
  ∀ index < graph.blocks.length, ReflTransGen graph.chart.Leads (.block index) .exit

theorem SplicedTo.allEnd (h : graph.SplicedTo result place) (ha : graph.AllEnd) :
    result.AllEnd := by
  intro index hlt
  obtain ⟨source, hs, rfl⟩ := h.onto index hlt
  exact h.contracts.reaches_of_reaches h.places_biUnique (fun _ _ _ hu => hu.1.eq_of_slides)
    (ha source hs.lt_length) .refl ⟨hs, rfl⟩ ⟨trivial, rfl⟩

theorem FrozenTo.path_exit [Ranged α] {frozen : Graph α} (h : graph.FrozenTo frozen place)
    (ha : graph.AllEnd) : ∀ index < frozen.size, frozen.Path (.block index) .exit := by
  intro index hlt
  obtain ⟨source, block, -, hb, rfl, -⟩ := h.exists_place hlt
  exact ReflTransGen.lift (Vertex.map place) (fun _ _ hl => h.mem_successors hl) _ _
    (ha source (List.getElem?_eq_some_iff.1 hb).1)

end RawGraph

namespace Body

variable {body : Body} {graph : Graph Element}

/-- In a body all of whose `for`s have tests, outside of the functions in it, the exit is in reach
of every block, whether a run gets to the block or not. -/
theorem graph_path_exit (hn : ∀ element ∈ body.nodes, element.isEndless = false)
    (h : body.graph options = .ok graph) :
    ∀ index < graph.size, graph.Path (.block index) .exit := by
  have hroles : ∀ element, (element, Role.endless) ∉ body.roles := by
    intro element hr
    have hnode := hn element (body.evaluated_sublist.subset (mem_evaluated_of_role hr))
    rw [isEndless_of_role hr] at hnode
    cases hnode
  obtain ⟨draft, spliced, place, place', hprogress, hspliced, hfrozen⟩ := exists_progress h
  have hends := (hprogress.leadsBack hroles Draft.initial_leadsBack).reaches_exit
  exact hfrozen.path_exit (hspliced.allEnd hends)

/-- A loop in a loop, with code in it that no run gets to:
`while (a) { do { continue; b; } while (c); }` -/
def deadInLoop : Body :=
  ⟨.script, ⟨0, 44⟩, 0, [
    .whileStmt ⟨0, 44⟩ (.name ⟨7, 8⟩ "a") (.block ⟨10, 44⟩ [
      .doStmt ⟨12, 42⟩ (.block ⟨15, 31⟩ [
        .jump ⟨17, 26⟩ .continue none,
        .expression ⟨27, 29⟩ (.name ⟨27, 28⟩ "b")]) (.name ⟨39, 40⟩ "c")])]⟩

theorem graph_path_exit_deadInLoop :
    ∃ graph, deadInLoop.graph {} = .ok graph ∧
      (∀ element ∈ deadInLoop.nodes, element.isEndless = false) ∧
      0 < graph.size ∧ ∀ index < graph.size, graph.Path (.block index) .exit := by
  obtain ⟨graph, hgraph⟩ : ∃ graph, deadInLoop.graph {} = .ok graph := exists_graph (by decide)
  have hendless : ∀ element ∈ deadInLoop.nodes, element.isEndless = false := by decide
  have hblocks : graph.blocks ≠ [] := mt (blocks_eq_nil_iff hgraph).1 (by decide)
  exact ⟨graph, hgraph, hendless, List.length_pos_iff.2 hblocks,
    graph_path_exit hendless hgraph⟩

end Body

end FlowLint
