import FlowLint.Proofs.Flow.Mapped

namespace FlowLint
set_option autoImplicit true

/-- Two computations have related results, or both fail in the same way. Errors of the first one
that are excused say nothing about the second. -/
inductive Parallel (excused : ε → Prop) (rel : α → β → Prop) : Except ε α → Except ε β → Prop
  | ok (h : rel a b) : Parallel excused rel (.ok a) (.ok b)
  | error (e : ε) : Parallel excused rel (.error e) (.error e)
  | excuse (h : excused e) : Parallel excused rel (.error e) y

namespace Parallel

variable {ε ε' α β γ δ : Type} {excused : ε → Prop} {rel : α → β → Prop} {rel' : γ → δ → Prop}

theorem refl (x : Except ε α) : Parallel excused (· = ·) x x := by
  cases x with
  | error e => exact .error e
  | ok a => exact .ok rfl

theorem bind_of_ok {x : Except ε α} {y : Except ε β} {k : α → Except ε γ} {l : β → Except ε δ}
    (h : Parallel excused rel x y)
    (hk : ∀ a b, x = .ok a → rel a b → Parallel excused rel' (k a) (l b)) :
    Parallel excused rel' (x >>= k) (y >>= l) := by
  cases h with
  | ok hab => exact hk _ _ rfl hab
  | error e => exact .error e
  | excuse he => exact .excuse he

protected theorem bind {x : Except ε α} {y : Except ε β} {k : α → Except ε γ} {l : β → Except ε δ}
    (h : Parallel excused rel x y) (hk : ∀ a b, rel a b → Parallel excused rel' (k a) (l b)) :
    Parallel excused rel' (x >>= k) (y >>= l) :=
  h.bind_of_ok fun a b _ => hk a b

theorem mapError {x : Except ε α} {y : Except ε β} {excused' : ε' → Prop}
    (h : Parallel (fun _ => False) rel x y) (f : ε → ε') :
    Parallel excused' rel (x.mapError f) (y.mapError f) := by
  cases h with
  | ok hab => exact .ok hab
  | error e => exact .error (f e)
  | excuse he => exact he.elim

theorem exists_of_ok {y : Except ε β} (h : Parallel excused rel (.ok a) y) :
    ∃ b, y = .ok b ∧ rel a b := by
  cases h with
  | ok hab => exact ⟨_, rfl, hab⟩

theorem eq_of_error {y : Except ε β} (h : Parallel excused rel (.error e) y) (he : ¬ excused e) :
    y = .error e := by
  cases h with
  | error => rfl
  | excuse hexcused => exact (he hexcused).elim

theorem both {x : Except ε α} {y : Except ε β} (h : Parallel excused rel x y)
    (he : ∀ e, ¬ excused e) :
    (∃ a b, x = .ok a ∧ y = .ok b ∧ rel a b) ∨ ∃ e, x = .error e ∧ y = .error e := by
  cases h with
  | ok hab => exact .inl ⟨_, _, rfl, rfl, hab⟩
  | error e => exact .inr ⟨e, rfl, rfl⟩
  | excuse hexcused => exact (he _ hexcused).elim

end Parallel

variable {α β : Type}

/-- The blocks have corresponding elements and the same way out. -/
structure RawBlock.Matches (rel : α → β → Prop) (block : RawBlock α) (block' : RawBlock β) :
    Prop where
  elements : List.Forall₂ rel block.elements block'.elements
  edge : block.edge = block'.edge

structure BasicBlock.Matches (rel : α → β → Prop) (block : BasicBlock α) (block' : BasicBlock β) :
    Prop where
  elements : List.Forall₂ rel block.elements block'.elements
  edge : block.edge = block'.edge

/-- The graphs have corresponding blocks under the same numbers, and start at the same vertex. -/
structure RawGraph.Matches (rel : α → β → Prop) (graph : RawGraph α) (graph' : RawGraph β) :
    Prop where
  blocks : List.Forall₂ (RawBlock.Matches rel) graph.blocks graph'.blocks
  start : graph.start = graph'.start

structure Graph.Matches (rel : α → β → Prop) (graph : Graph α) (graph' : Graph β) : Prop where
  blocks : List.Forall₂ (BasicBlock.Matches rel) graph.blocks graph'.blocks
  start : graph.start = graph'.start

/-- Elements that correspond to each other. -/
abbrev Match (rel : α → β → Prop) : Type :=
  { pair : α × β // rel pair.1 pair.2 }

namespace Match

variable {rel : α → β → Prop}

def left (pair : Match rel) : α :=
  pair.1.1

def right (pair : Match rel) : β :=
  pair.1.2

end Match

variable {rel : α → β → Prop}

theorem exists_pairs {items : List α} {items' : List β} (h : List.Forall₂ rel items items') :
    ∃ pairs : List (Match rel), pairs.map Match.left = items ∧ pairs.map Match.right = items' := by
  induction h with
  | nil => exact ⟨[], rfl, rfl⟩
  | cons hr _ ih =>
    obtain ⟨pairs, rfl, rfl⟩ := ih
    exact ⟨⟨(_, _), hr⟩ :: pairs, rfl, rfl⟩

theorem forall₂_pairs (pairs : List (Match rel)) :
    List.Forall₂ rel (pairs.map Match.left) (pairs.map Match.right) := by
  rw [List.forall₂_map_left_iff, List.forall₂_map_right_iff, List.forall₂_same]
  exact fun pair _ => pair.2

namespace RawGraph

theorem exists_pairs {blocks : List (RawBlock α)} {blocks' : List (RawBlock β)}
    (h : List.Forall₂ (RawBlock.Matches rel) blocks blocks') :
    ∃ pairs : List (RawBlock (Match rel)),
      pairs.map (RawBlock.map Match.left) = blocks ∧
        pairs.map (RawBlock.map Match.right) = blocks' := by
  induction h with
  | nil => exact ⟨[], rfl, rfl⟩
  | @cons block block' _ _ hb _ ih =>
    obtain ⟨pairs, rfl, rfl⟩ := ih
    obtain ⟨elements, hl, hr⟩ := FlowLint.exists_pairs hb.elements
    refine ⟨⟨elements, block.edge⟩ :: pairs, ?_, ?_⟩
    · simp only [List.map_cons, RawBlock.map, hl]
    · simp only [List.map_cons, RawBlock.map, hr, hb.edge]

/-- Graphs that match are the two sides of a graph of pairs. -/
theorem Matches.exists_paired {graph : RawGraph α} {graph' : RawGraph β}
    (h : graph.Matches rel graph') :
    ∃ paired : RawGraph (Match rel), paired.map Match.left = graph ∧
      paired.map Match.right = graph' := by
  obtain ⟨pairs, hl, hr⟩ := exists_pairs h.blocks
  obtain ⟨blocks, start⟩ := graph
  obtain ⟨blocks', start'⟩ := graph'
  refine ⟨⟨pairs, start⟩, ?_, ?_⟩
  · exact congrArg (RawGraph.mk · start) hl
  · rw [map, hr]
    exact congrArg (RawGraph.mk blocks') h.start

end RawGraph

theorem Graph.matches_of_paired (paired : Graph (Match rel)) :
    (paired.map Match.left).Matches rel (paired.map Match.right) := by
  refine ⟨?_, rfl⟩
  rw [Graph.map, Graph.map, List.forall₂_map_left_iff, List.forall₂_map_right_iff,
    List.forall₂_same]
  exact fun block _ => ⟨forall₂_pairs block.elements, rfl⟩

/-- Two computations that carry the results of a third end in the same way. -/
theorem Carries.parallel {ε γ : Type} {stands : α → β → Prop} {f : γ → α} {g : γ → β}
    {x : Except ε γ} {y : Except ε α} {z : Except ε β} (hy : Carries id f x y)
    (hz : Carries id g x z) (h : ∀ c, stands (f c) (g c)) :
    Parallel (fun _ => False) stands y z := by
  subst hy hz
  cases x with
  | error e => exact .error e
  | ok c => exact .ok (h c)

namespace RawGraph

variable [Ranged α] [Ranged β]

theorem Matches.finish {graph : RawGraph α} {graph' : RawGraph β} (h : graph.Matches rel graph')
    (hr : ∀ a b, rel a b → Ranged.range a = Ranged.range b) :
    Parallel (fun _ => False) (Graph.Matches rel)
      (graph.splice >>= freeze) (graph'.splice >>= freeze) := by
  obtain ⟨paired, rfl, rfl⟩ := h.exists_paired
  let _ : Ranged (Match rel) := ⟨fun pair => Ranged.range pair.left⟩
  have hright (pair : Match rel) : Ranged.range pair.right = Ranged.range pair :=
    (hr _ _ pair.2).symm
  have hleft : Carries id (Graph.map Match.left) (paired.splice >>= freeze)
      ((paired.map Match.left).splice >>= freeze) :=
    paired.splice_map.bind fun spliced => freeze_map fun _ _ _ _ _ _ _ _ => Iff.rfl
  have hright : Carries id (Graph.map Match.right) (paired.splice >>= freeze)
      ((paired.map Match.right).splice >>= freeze) := by
    apply paired.splice_map.bind
    intro spliced
    apply freeze_map
    intro _ _ _ _ a _ b _
    rw [hright, hright]
  exact hleft.parallel hright Graph.matches_of_paired

end RawGraph

end FlowLint
