import FlowLint.Proofs.Flow.Chart
import Mathlib.Data.List.Forall2

namespace FlowLint
set_option autoImplicit true

theorem exists_mem_of_forall₂ (h : List.Forall₂ R xs ys) (hx : x ∈ xs) : ∃ y ∈ ys, R x y := by
  induction h with
  | nil => cases hx
  | cons hr _ ih =>
    rcases List.mem_cons.1 hx with rfl | hx
    · exact ⟨_, List.mem_cons_self .., hr⟩
    · obtain ⟨y, hy, hr⟩ := ih hx
      exact ⟨y, List.mem_cons_of_mem _ hy, hr⟩

namespace Chart

variable {α : Type}

/-- A walk leads from one vertex to another without reading or deciding anything. -/
inductive Slides (chart : Chart α) : Vertex → Vertex → Prop
  | refl {vertex : Vertex} : chart.Slides vertex vertex
  | step {source next target : Vertex} (he : chart.elements source = [])
      (hw : chart.ways source = [(none, next)]) (hs : chart.Slides next target) :
      chart.Slides source target

/-- The vertices of one chart stand for vertices of another, whose ways lead to them directly or
through vertices that are left out. -/
structure Contracts (left right : Chart α) (stands : Vertex → Vertex → Prop) : Prop where
  exit : ∀ u v, stands u v → (u = .exit ↔ v = .exit)
  elements : ∀ u v, stands u v → left.elements u = right.elements v
  ways : ∀ u v, stands u v →
    List.Forall₂ (fun way way' => way.1 = way'.1 ∧ ∃ u', left.Slides way.2 u' ∧ stands u' way'.2)
      (left.ways u) (right.ways v)

variable {left right chart : Chart α} {stands : Vertex → Vertex → Prop} {u u' v v' : Vertex}

theorem Slides.reads_iff (h : chart.Slides u v) :
    chart.Reads u word ending ↔ chart.Reads v word ending := by
  induction h with
  | refl => exact Iff.rfl
  | @step source next target he hw _ ih =>
    rw [← ih]
    constructor
    · intro hr
      cases hr with
      | finish => simp [chart.ways_exit] at hw
      | stop h =>
        rw [he, List.map_nil, List.prefix_nil] at h
        rw [h]
        exact chart.reads_nil next
      | pass h hr =>
        rw [hw, List.mem_singleton, Prod.mk.injEq] at h
        obtain ⟨rfl, rfl⟩ := h
        simpa [passage, he] using hr
    · intro hr
      have hp := Reads.pass (hw ▸ List.mem_singleton_self (none, next)) hr
      simpa [passage, he] using hp

theorem Contracts.reads_of_reads (h : left.Contracts right stands) (hu : left.Slides u u')
    (hs : stands u' v) (hr : left.Reads u word ending) : right.Reads v word ending := by
  induction hr generalizing u' v with
  | finish =>
    cases hu with
    | refl =>
      rw [(h.exit _ _ hs).1 rfl]
      exact .finish
    | step _ hw => simp [left.ways_exit] at hw
  | stop hp =>
    cases hu with
    | refl => exact .stop (h.elements _ _ hs ▸ hp)
    | step he _ _ =>
      rw [he, List.map_nil, List.prefix_nil] at hp
      rw [hp]
      exact right.reads_nil v
  | pass hm _ ih =>
    cases hu with
    | refl =>
      obtain ⟨⟨side', next'⟩, hm', hside, u'', hu'', hs''⟩ :=
        exists_mem_of_forall₂ (h.ways _ _ hs) hm
      cases hside
      rw [passage, h.elements _ _ hs]
      exact .pass hm' (ih hu'' hs'')
    | step he hw hu =>
      rw [hw, List.mem_singleton, Prod.mk.injEq] at hm
      obtain ⟨rfl, rfl⟩ := hm
      simpa [passage, he] using ih hu hs

theorem Contracts.reads_of_reads' (h : left.Contracts right stands)
    (hs : stands u v) (hr : right.Reads v word ending) : left.Reads u word ending := by
  induction hr generalizing u with
  | finish =>
    rw [(h.exit _ _ hs).2 rfl]
    exact .finish
  | stop hp => exact .stop (h.elements _ _ hs ▸ hp)
  | pass hm _ ih =>
    obtain ⟨⟨side', next'⟩, hm', hside, u'', hu'', hs''⟩ :=
      exists_mem_of_forall₂ (h.ways _ _ hs).flip hm
    cases hside
    rw [passage, ← h.elements _ _ hs]
    exact .pass hm' (hu''.reads_iff.2 (ih hs''))

/-- Both charts read the same from vertices that stand for each other. -/
theorem Contracts.reads_iff (h : left.Contracts right stands) (hu : left.Slides u u')
    (hs : stands u' v) : left.Reads u word ending ↔ right.Reads v word ending :=
  ⟨h.reads_of_reads hu hs, fun hr => hu.reads_iff.2 (h.reads_of_reads' hs hr)⟩

theorem Slides.reaches (h : chart.Slides u v) : Relation.ReflTransGen chart.Leads u v := by
  induction h with
  | refl => exact .refl
  | step _ hw _ ih => exact .head ⟨none, hw ▸ List.mem_singleton_self _⟩ ih

/-- A step between vertices that are not left out is matched through those that are. -/
theorem Contracts.leads_of_leads (h : left.Contracts right stands) (hs : stands u v)
    (hl : left.Leads u u') : ∃ v' t, right.Leads v v' ∧ left.Slides u' t ∧ stands t v' := by
  obtain ⟨side, hm⟩ := hl
  obtain ⟨⟨side', v'⟩, hm', -, t, ht, hs'⟩ := exists_mem_of_forall₂ (h.ways _ _ hs) hm
  exact ⟨v', t, ⟨side', hm'⟩, ht, hs'⟩

theorem Contracts.leads_of_leads' (h : left.Contracts right stands) (hs : stands u v)
    (hl : right.Leads v v') : ∃ u' t, left.Leads u u' ∧ left.Slides u' t ∧ stands t v' := by
  obtain ⟨side, hm⟩ := hl
  obtain ⟨⟨side', u'⟩, hm', -, t, ht, hs'⟩ := exists_mem_of_forall₂ (h.ways _ _ hs).flip hm
  exact ⟨u', t, ⟨side', hm'⟩, ht, hs'⟩

section Reachability

open Relation

variable (h : left.Contracts right stands) (hb : Relator.BiUnique stands)
  (still : ∀ u v u', stands u v → left.Slides u u' → u = u')

include h hb still in
theorem Contracts.reaches_of_reaches (hr : ReflTransGen left.Leads u v) (hu : left.Slides u u')
    (hs : stands u' w) (hv : stands v w') : ReflTransGen right.Leads w w' := by
  induction hr using ReflTransGen.head_induction_on generalizing u' w with
  | refl =>
    obtain rfl := still _ _ _ hv hu
    rw [hb.2 hs hv]
  | head hl _ ih =>
    cases hu with
    | refl =>
      obtain ⟨_, _, hl', ht, hs'⟩ := h.leads_of_leads hs hl
      exact .head hl' (ih ht hs')
    | step he hw hu =>
      obtain ⟨side, hm⟩ := hl
      rw [hw, List.mem_singleton, Prod.mk.injEq] at hm
      obtain ⟨rfl, rfl⟩ := hm
      exact ih hu hs

include h hb in
theorem Contracts.reaches_of_reaches' (hr : ReflTransGen right.Leads w w') (hs : stands u w)
    (hv : stands v w') : ReflTransGen left.Leads u v := by
  induction hr using ReflTransGen.head_induction_on generalizing u with
  | refl => rw [hb.1 hs hv]
  | head hl _ ih =>
    obtain ⟨_, _, hl', ht, hs'⟩ := h.leads_of_leads' hs hl
    exact .head hl' (ht.reaches.trans (ih hs'))

include h hb still in
/-- Both charts have paths between the same vertices, among those that are not left out. -/
theorem Contracts.reaches_iff (hs : stands u w) (hv : stands v w') :
    ReflTransGen left.Leads u v ↔ ReflTransGen right.Leads w w' :=
  ⟨fun hr => h.reaches_of_reaches hb still hr .refl hs hv,
    fun hr => h.reaches_of_reaches' hb hr hs hv⟩

include h hb still in
theorem Contracts.transGen_iff (hs : stands u w) (hv : stands v w') :
    TransGen left.Leads u v ↔ TransGen right.Leads w w' := by
  simp only [TransGen.head'_iff]
  constructor
  · rintro ⟨u', hl, hr⟩
    obtain ⟨x, t, hl', ht, hs'⟩ := h.leads_of_leads hs hl
    exact ⟨x, hl', h.reaches_of_reaches hb still hr ht hs' hv⟩
  · rintro ⟨x, hl, hr⟩
    obtain ⟨u', t, hl', ht, hs'⟩ := h.leads_of_leads' hs hl
    exact ⟨u', hl', ht.reaches.trans (h.reaches_of_reaches' hb hr hs' hv)⟩

end Reachability

end Chart

end FlowLint
