import FlowLint.Proofs.Flow.Development
import FlowLint.Proofs.Flow.Runs

namespace FlowLint
set_option autoImplicit true

namespace Chart

/-- What walks read that first pass some elements and then leave by one of some ways. -/
inductive ReadsBy (chart : Chart α) (elements : List α) (ways : List (Option Bool × Vertex)) :
    Reading α
  | stop (h : word <+: elements.map .element) : chart.ReadsBy elements ways word .interrupted
  | pass (h : (side, next) ∈ ways) (hr : chart.Reads next word ending) :
      chart.ReadsBy elements ways (elements.map .element ++ side.toList.map .side ++ word) ending

variable {α : Type} (chart : Chart α)

theorem reads_block (index : Nat) : chart.Reads (.block index) =
    chart.ReadsBy (chart.elements (.block index)) (chart.ways (.block index)) := by
  funext word ending
  apply propext
  constructor
  · intro h
    cases h with
    | stop h => exact .stop h
    | pass h hr => exact .pass h hr
  · intro h
    cases h with
    | stop h => exact .stop h
    | pass h hr => exact .pass h hr

theorem readsBy_cons (element : α) (elements : List α) (ways : List (Option Bool × Vertex)) :
    chart.ReadsBy (element :: elements) ways =
      .emit (.element element) (chart.ReadsBy elements ways) := by
  funext word ending
  apply propext
  constructor
  · intro h
    cases h with
    | stop h =>
      rcases List.prefix_cons_iff.1 h with rfl | ⟨rest, rfl, hrest⟩
      · exact .cut
      · exact .cons (.stop hrest)
    | pass h hr => exact .cons (.pass h hr)
  · intro h
    cases h with
    | cut => exact .stop List.nil_prefix
    | cons h =>
      cases h with
      | stop h => exact .stop ((List.prefix_cons_inj _).2 h)
      | pass h hr => exact .pass h hr

theorem readsBy_jump (target : Vertex) :
    chart.ReadsBy [] [(none, target)] = chart.Reads target := by
  funext word ending
  apply propext
  constructor
  · intro h
    cases h with
    | stop h =>
      rw [List.prefix_nil.1 h]
      exact chart.reads_nil target
    | pass h hr =>
      simp only [List.mem_singleton, Prod.mk.injEq] at h
      obtain ⟨rfl, rfl⟩ := h
      exact hr
  · exact fun h => .pass (List.mem_singleton_self _) h

theorem readsBy_branch (onTrue onFalse : Vertex) :
    chart.ReadsBy [] [(some true, onTrue), (some false, onFalse)] =
      .either (.emit (.side true) (chart.Reads onTrue))
        (.emit (.side false) (chart.Reads onFalse)) := by
  funext word ending
  apply propext
  constructor
  · intro h
    cases h with
    | stop h =>
      rw [List.prefix_nil.1 h]
      exact .inl .cut
    | pass h hr =>
      simp only [List.mem_cons, Prod.mk.injEq, List.not_mem_nil, or_false] at h
      rcases h with ⟨rfl, rfl⟩ | ⟨rfl, rfl⟩
      · exact .inl (.cons hr)
      · exact .inr (.cons hr)
  · rintro (h | h)
    · cases h with
      | cut => exact .stop List.nil_prefix
      | cons h => exact .pass (List.mem_cons_self ..) h
    · cases h with
      | cut => exact .stop List.nil_prefix
      | cons h => exact .pass (List.mem_cons_of_mem _ (List.mem_cons_self ..)) h

end Chart

def RawBlock.reading (block : RawBlock α) (chart : Chart α) : Reading α :=
  chart.ReadsBy block.elements block.edge.ways

theorem RawGraph.reads_block {graph : RawGraph α} (h : graph.blocks[i]? = some block) :
    graph.chart.Reads (.block i) = block.reading graph.chart := by
  simp [Chart.reads_block, chart, h, RawBlock.reading]

namespace Draft

variable {draft later : Draft} {graph : RawGraph Element} {i guard : Nat}

/-- What is read from the current block on, as far as it is filled. -/
def reading (draft : Draft) (chart : Chart Element) : Reading Element :=
  draft.blocks[draft.current]?.elim .stopped (·.reading chart)

theorem reading_prepend (hr : draft.Ready) (element : Element) (chart : Chart Element) :
    (draft.prepend element).reading chart = .emit (.element element) (draft.reading chart) := by
  obtain ⟨block, hb, -⟩ := hr
  simp [reading, prepend, hb, RawBlock.reading, RawBlock.prepend, Chart.readsBy_cons]

theorem reading_enterBlock (draft : Draft) (edge : RawEdge) (chart : Chart Element) :
    (draft.enterBlock edge).reading chart = chart.ReadsBy [] edge.ways := by
  simp [reading, enterBlock, RawBlock.reading, RawBlock.ofEdge]

theorem reading_enter (draft : Draft) (target : Vertex) (chart : Chart Element) :
    (draft.enter target).reading chart = chart.Reads target :=
  (draft.reading_enterBlock _ chart).trans (chart.readsBy_jump target)

/-- The blocks of a draft that are wired stand in a graph. -/
def SealedIn (draft : Draft) (graph : RawGraph Element) : Prop :=
  ∀ (i : Nat) (block : RawBlock Element), draft.blocks[i]? = some block → block.edge.Wired →
    graph.blocks[i]? = some block

/-- So do those of a draft whose current block is still to be filled, except that block. -/
def SettledIn (draft : Draft) (graph : RawGraph Element) : Prop :=
  ∀ (i : Nat) (block : RawBlock Element), i ≠ draft.current → draft.blocks[i]? = some block →
    block.edge.Wired → graph.blocks[i]? = some block

theorem SettledIn.of_keeps (h : later.SettledIn graph) (hk : draft.Keeps later) :
    draft.SettledIn graph := by
  intro i block hi hb hw
  have hlt := (List.getElem?_eq_some_iff.1 hb).1
  exact h i block (hk.current_ne hlt hi) (hk.block i hlt hi ▸ hb) hw

theorem SettledIn.sealedIn (h : (draft.enterBlock edge).SettledIn graph) :
    draft.SealedIn graph := by
  intro i block hb hw
  have hlt := (List.getElem?_eq_some_iff.1 hb).1
  refine h i block (Nat.ne_of_lt hlt) ?_ hw
  rw [getElem?_enterBlock_of_lt _ hlt, hb]

theorem SealedIn.settledIn (h : draft.SealedIn graph) : draft.SettledIn graph :=
  fun i block _ => h i block

theorem SettledIn.of_prepend (h : (draft.prepend element).SettledIn graph) :
    draft.SettledIn graph :=
  h.of_keeps ((Keeps.refl draft).prepend element)

theorem SealedIn.of_addGuard (h : (draft.addGuard edge head).SealedIn graph) :
    draft.SealedIn graph := by
  intro i block hb hw
  refine h i block ?_ hw
  rw [getElem?_addGuard_of_lt _ _ (List.getElem?_eq_some_iff.1 hb).1, hb]

theorem SealedIn.of_addUpdate (h : (draft.addUpdate again update).1.SealedIn graph) :
    draft.SealedIn graph := by
  cases update with
  | none => exact h
  | some update => exact h.settledIn.of_prepend.sealedIn

theorem SealedIn.of_wire (h : (draft.wire guard).SealedIn graph) : draft.SealedIn graph := by
  intro i block hb hw
  refine h i block ?_ hw
  simp only [wire, List.getElem?_modify, hb]
  split
  · simp [RawBlock.enterLoop_of_wired hw]
  · rfl

/-- The current block is read as it has been filled when nothing is added any more. -/
theorem SealedIn.reads_here (h : draft.SealedIn graph) (hr : draft.Ready) :
    graph.chart.Reads draft.here = draft.reading graph.chart := by
  obtain ⟨block, hb, hw⟩ := hr
  rw [here, RawGraph.reads_block (h _ block hb hw), reading, hb]
  rfl

end Draft

def Breakable.target? (breakable : Breakable) : JumpKind → Option Vertex
  | .break => some breakable.breakTarget
  | .continue => breakable.continueTarget

namespace Scope

variable {scope : Scope} {graph : RawGraph Element} {reading : Reading Element}

def known (scope : Scope) : List String :=
  Enclosing.known scope.around

def target? (scope : Scope) (kind : JumpKind) (label : Option String) : Option Vertex :=
  (scope.breakables.find? (·.enclosing.catches kind label)).bind (·.target? kind)

/-- What is read behind a statement in this scope, given what is read behind its normal end. -/
def landing (scope : Scope) (graph : RawGraph Element) (normal : Reading Element) :
    Continuation Element where
  normal := normal
  jump kind label := (scope.target? kind label).elim .stopped graph.chart.Reads
  returned := graph.chart.Reads .exit
  thrown := graph.chart.Reads scope.throwTarget

theorem landing_throwingTo (target : Vertex) :
    (scope.throwingTo target).landing graph reading =
      { scope.landing graph reading with thrown := graph.chart.Reads target } :=
  rfl

theorem target?_push (breakable : Breakable) (kind : JumpKind) (label : Option String) :
    (scope.push breakable).target? kind label =
      if breakable.enclosing.catches kind label then breakable.target? kind
      else scope.target? kind label := by
  simp only [target?, push, List.find?_cons]
  split
  · next h => simp [h]
  · next h => simp [h]

theorem landing_push {kind : BreakableKind} {labels : List String}
    (ha : graph.chart.Reads after = next) :
    (scope.push ⟨kind, labels, none, after⟩).landing graph reading =
      { (scope.landing graph next).through (Enclosing.mk kind labels).leave with
        normal := reading } := by
  have hjump : ∀ jump label,
      ((scope.push ⟨kind, labels, none, after⟩).target? jump label).elim .stopped
        graph.chart.Reads =
      (scope.landing graph next).behind ((Enclosing.mk kind labels).leave (.jump jump label)) := by
    intro jump label
    rw [target?_push, Breakable.enclosing]
    by_cases hc : (Enclosing.mk kind labels).catches jump label = true
    · cases jump with
      | «break» => simp [Enclosing.leave, hc, Breakable.target?, Continuation.behind, landing, ha]
      | «continue» => simp [Enclosing.leave, hc, Breakable.target?, Continuation.behind]
    · cases jump <;> simp [Enclosing.leave, hc, Continuation.behind, landing]
  rw [landing, Continuation.through, Continuation.mk.injEq]
  exact ⟨rfl, funext₂ hjump, rfl, rfl⟩

theorem landing_pushLoop {labels : List String} (ha : graph.chart.Reads after = next) :
    (scope.pushLoop labels again after).landing graph (graph.chart.Reads again) =
      Continuation.through
        { (scope.landing graph next).through (Enclosing.mk .loop labels).leave with
          normal := graph.chart.Reads again }
        (Enclosing.mk .loop labels).resume := by
  have hjump : ∀ jump label,
      ((scope.pushLoop labels again after).target? jump label).elim .stopped graph.chart.Reads =
      Continuation.behind
        { (scope.landing graph next).through (Enclosing.mk .loop labels).leave with
          normal := graph.chart.Reads again }
        ((Enclosing.mk .loop labels).resume (.jump jump label)) := by
    intro jump label
    rw [pushLoop, target?_push, Breakable.enclosing]
    by_cases hc : (Enclosing.mk .loop labels).catches jump label = true
    · cases jump with
      | «break» =>
        simp [Enclosing.resume, Enclosing.leave, hc, Breakable.target?, Continuation.behind,
          Continuation.through, landing, ha]
      | «continue» => simp [Enclosing.resume, hc, Breakable.target?, Continuation.behind]
    · cases jump <;> simp [Enclosing.resume, Enclosing.leave, hc, Continuation.behind,
        Continuation.through, landing]
  rw [landing, Continuation.through, Continuation.mk.injEq]
  exact ⟨rfl, funext₂ hjump, rfl, rfl⟩

theorem target?_of_target {breakable : Breakable}
    (h : breakable.target kind label range = .ok target) :
    breakable.target? kind = some target := by
  unfold Breakable.target at h
  split at h
  · cases h
    rfl
  · next hc =>
    cases h
    exact hc
  · cases h

theorem contains_known (scope : Scope) (label : String) :
    scope.known.contains label = (scope.labeled? label).isSome := by
  rw [known, Enclosing.contains_known, find?_around, Option.isSome_map]

/-- A jump that has a target finds it by the label that it looks for. -/
theorem target?_of_jumpTarget (h : scope.jumpTarget kind label range = .ok target) :
    scope.target? kind (scope.options.labelOf scope.known (label.map (·.name))) = some target := by
  obtain ⟨found, hf, ht⟩ := bind_eq_ok.1 h
  cases found with
  | none => cases ht
  | some breakable =>
    suffices hl : scope.breakables.find? (·.enclosing.catches kind
        (scope.options.labelOf scope.known (label.map (·.name)))) = some breakable by
      rw [target?, hl, Option.bind_some, target?_of_target ht]
    cases label with
    | none =>
      rw [Option.map_none, FlowOptions.labelOf_none]
      exact Except.ok.inj hf
    | some label =>
      have hk := scope.contains_known label.name
      simp only [Option.map_some, breakable?] at hf ⊢
      split at hf
      · next hl =>
        cases hf
        rw [hl] at hk
        rw [FlowOptions.labelOf_known hk]
        exact hl
      · next hl ho =>
        rw [hl] at hk
        rw [FlowOptions.labelOf_unknown ho hk]
        exact Except.ok.inj hf
      · cases hf

end Scope

end FlowLint
