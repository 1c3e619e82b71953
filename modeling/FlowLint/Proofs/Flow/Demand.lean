import FlowLint.Proofs.Flow.Development
import FlowLint.Proofs.Flow.Walk

/-!
What can be asked of every step of a walk. There is one law for each way of putting plans together,
so a demand is met by all plans of statements if it is met by the few changes they consist of.
-/
namespace FlowLint
set_option autoImplicit true

namespace Builder

variable {builder : Builder} {step : Step} {steps steps' : List Step}

theorem Step.length_le_apply (step : Step) (builder : Builder) :
    builder.draft.blocks.length ≤ (step.apply builder).draft.blocks.length := by
  cases step with
  | change step => exact step.length_le_apply builder.draft
  | visit | pushBreakable | popBreakable | pushThrowTarget | popThrowTarget => exact Nat.le_refl _

theorem length_le_run (builder : Builder) (steps : List Step) :
    builder.draft.blocks.length ≤ (builder.run steps).draft.blocks.length := by
  induction steps generalizing builder with
  | nil => exact Nat.le_refl _
  | cons step steps ih => exact Nat.le_trans (step.length_le_apply builder) (ih _)

/-- What is asked of a walk: of the builder at each step, and of the builder where it fails. -/
structure Demand where
  step : Builder → Step → Prop
  failed : Builder → Prop

variable {demand : Demand}

/-- Every step is as demanded when its turn comes. -/
def Meets (demand : Demand) : Builder → List Step → Prop
  | _, [] => True
  | builder, step :: steps => demand.step builder step ∧ (step.apply builder).Meets demand steps

theorem meets_append : builder.Meets demand (steps ++ steps') ↔
    builder.Meets demand steps ∧ (builder.run steps).Meets demand steps' := by
  induction steps generalizing builder with
  | nil => simp [Meets, run]
  | cons step steps ih => simp only [List.cons_append, Meets, ih, and_assoc, run, List.foldl_cons]

theorem Meets.at_split (h : builder.Meets demand steps) (hs : steps = before ++ step :: behind) :
    demand.step (builder.run before) step := by
  subst hs
  exact (meets_append.1 h).2.1

end Builder

namespace Plan

/-- A plan meets a demand. What it gives and the draft that it leaves satisfy `post`. -/
structure Holds (demand : Builder.Demand) (plan : Plan α) (builder : Builder)
    (post : α → Draft → Prop) : Prop where
  steps : builder.Meets demand (plan.walk builder).1
  ok : ∀ a, (plan.walk builder).2 = .ok a → post a (builder.run (plan.walk builder).1).draft
  error : ∀ error, (plan.walk builder).2 = .error error →
    demand.failed (builder.run (plan.walk builder).1)

variable {α β : Type} {demand : Builder.Demand} {builder : Builder} {plan : Plan α}
  {next : α → Plan β} {m : α → Draft → Prop} {post : β → Draft → Prop} {step : Draft.Step}

theorem Holds.bind (h : plan.Holds demand builder m)
    (hn : ∀ a draft, builder.draft.blocks.length ≤ draft.blocks.length → m a draft →
      (next a).Holds demand (builder.withDraft draft) post) :
    (plan >>= next).Holds demand builder post := by
  obtain ⟨hsteps, hok, herror⟩ := h
  have hrestored := plan.run_walk builder
  rcases hw : plan.walk builder with ⟨steps, error | a⟩
  · rw [hw] at hsteps herror
    constructor
    · rwa [walk_bind_of_error next hw]
    · rw [walk_bind_of_error next hw]
      exact nofun
    · rw [walk_bind_of_error next hw]
      exact fun _ _ => herror error rfl
  · rw [hw] at hsteps hok hrestored
    have hnext := hn a _ (builder.length_le_run steps) (hok a rfl)
    rw [← hrestored] at hnext
    constructor
    · rw [walk_bind_of_ok next hw]
      exact Builder.meets_append.2 ⟨hsteps, hnext.steps⟩
    · rw [walk_bind_of_ok next hw, Builder.run_append]
      exact hnext.ok
    · rw [walk_bind_of_ok next hw, Builder.run_append]
      exact hnext.error

theorem Holds.pure (h : post a builder.draft) : (Pure.pure a : Plan β).Holds demand builder post :=
  ⟨trivial, fun _ he => Except.ok.inj he ▸ h, nofun⟩

theorem Holds.see {read : Scope → Draft → β}
    (h : post (read builder.scope builder.draft) builder.draft) :
    (Plan.see read).Holds demand builder post :=
  ⟨trivial, fun _ he => Except.ok.inj he ▸ h, nofun⟩

theorem Holds.see_bind {read : Scope → Draft → α}
    (h : (next (read builder.scope builder.draft)).Holds demand builder post) :
    (Plan.see read >>= next).Holds demand builder post :=
  ⟨h.steps, h.ok, h.error⟩

theorem Holds.fail (h : demand.failed builder) (error : FlowError) :
    (Plan.attempt (.error error) : Plan β).Holds demand builder post :=
  ⟨trivial, nofun, fun _ _ => h⟩

theorem Holds.attempt_bind {result : Except FlowError α} (hf : demand.failed builder)
    (h : ∀ a, result = .ok a → (next a).Holds demand builder post) :
    (Plan.attempt result >>= next).Holds demand builder post := by
  cases result with
  | error error => exact ⟨trivial, nofun, fun _ _ => hf⟩
  | ok a => exact ⟨(h a rfl).steps, (h a rfl).ok, (h a rfl).error⟩

theorem Holds.change {post : Unit → Draft → Prop} (hs : demand.step builder (.change step))
    (h : post () (step.apply builder.draft)) : (Plan.change step).Holds demand builder post :=
  ⟨⟨hs, trivial⟩, fun _ _ => h, nofun⟩

theorem Holds.change_bind {next : Unit → Plan β} (hs : demand.step builder (.change step))
    (h : (next ()).Holds demand (builder.withDraft (step.apply builder.draft)) post) :
    (Plan.change step >>= next).Holds demand builder post :=
  ⟨⟨hs, h.steps⟩, h.ok, h.error⟩

theorem Holds.mono {post' : α → Draft → Prop} (h : plan.Holds demand builder m)
    (hp : ∀ a draft, m a draft → post' a draft) : plan.Holds demand builder post' :=
  ⟨h.steps, fun a ha => hp a _ (h.ok a ha), h.error⟩

/-- What is put around a plan is taken back behind it, also where the plan fails. -/
theorem Holds.inside {surrounding : Surrounding} (hf : demand.step builder surrounding.first)
    (hl : ∀ later, demand.failed later →
      demand.step later surrounding.last ∧ demand.failed (surrounding.last.apply later))
    (h : plan.Holds demand (surrounding.first.apply builder) fun a draft => m a draft ∧
      demand.step ((surrounding.first.apply builder).withDraft draft) surrounding.last) :
    (Plan.inside surrounding plan).Holds demand builder m := by
  obtain ⟨hsteps, hok, herror⟩ := h
  have hrun := run_walk_inside surrounding plan builder
  have hrestored := plan.run_walk (surrounding.first.apply builder)
  have hlast : demand.step ((surrounding.first.apply builder).run
      (plan.walk (surrounding.first.apply builder)).1) surrounding.last := by
    rcases hr : (plan.walk (surrounding.first.apply builder)).2 with error | a
    · exact (hl _ (herror error hr)).1
    · rw [hrestored]
      exact (hok a hr).2
  constructor
  · exact ⟨hf, Builder.meets_append.2 ⟨hsteps, hlast, trivial⟩⟩
  · intro a ha
    rw [hrun, hrestored, surrounding.last_first]
    exact (hok a ha).1
  · intro error he
    rw [hrun]
    exact (hl _ (herror error he)).2

end Plan

end FlowLint
