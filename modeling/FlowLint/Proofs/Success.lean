import Mathlib.Data.List.Forall2

namespace FlowLint
set_option autoImplicit true

theorem bind_eq_ok {x : Except ε α} {f : α → Except ε β} :
    x >>= f = .ok b ↔ ∃ a, x = .ok a ∧ f a = .ok b := by
  cases x with
  | error => simp [bind, Except.bind]
  | ok a => simp [bind, Except.bind]

theorem bind_eq_error {x : Except ε α} {f : α → Except ε β} :
    x >>= f = .error e ↔ x = .error e ∨ ∃ a, x = .ok a ∧ f a = .error e := by
  cases x <;> simp [bind, Except.bind]

theorem exists_ok_of_isOk {x : Except ε α} (h : x.isOk = true) : ∃ a, x = .ok a := by
  cases x with
  | error => cases h
  | ok a => exact ⟨a, rfl⟩

/-- What can be read off a result shows that there is one. -/
theorem exists_ok_of_map {x : Except ε α} {f : α → β} (h : x.toOption.map f = some b) :
    ∃ a, x = .ok a ∧ f a = b := by
  cases x with
  | error => cases h
  | ok a => exact ⟨a, rfl, Option.some.inj h⟩

theorem pure_eq_ok {a b : α} : (pure a : Except ε α) = .ok b ↔ a = b := by
  simp [pure, Except.pure]

theorem mapError_eq_ok {x : Except ε α} {f : ε → ε'} : x.mapError f = .ok a ↔ x = .ok a := by
  cases x <;> simp [Except.mapError]

theorem mapM_eq_ok {xs : List α} {f : α → Except ε β} :
    xs.mapM f = .ok ys ↔ List.Forall₂ (fun x y => f x = .ok y) xs ys := by
  induction xs generalizing ys with
  | nil => cases ys <;> simp [pure, Except.pure]
  | cons x xs ih =>
    simp only [List.mapM_cons, bind_eq_ok, pure_eq_ok]
    constructor
    · rintro ⟨y, hy, zs, hzs, rfl⟩
      exact .cons hy (ih.1 hzs)
    · intro h
      cases h with
      | cons hy hys => exact ⟨_, hy, _, ih.2 hys, rfl⟩

theorem exists_mapM_eq_ok {xs : List α} {f : α → Except ε β} (h : ∀ x ∈ xs, ∃ y, f x = .ok y) :
    ∃ ys, xs.mapM f = .ok ys := by
  induction xs with
  | nil => exact ⟨[], rfl⟩
  | cons x xs ih =>
    obtain ⟨y, hy⟩ := h x (List.mem_cons_self ..)
    obtain ⟨ys, hys⟩ := ih fun z hz => h z (List.mem_cons_of_mem _ hz)
    exact ⟨y :: ys, mapM_eq_ok.2 (.cons hy (mapM_eq_ok.1 hys))⟩

theorem exists_split_of_mapM {xs : List α} {f : α → Except ε β} (h : xs.mapM f = .error e) :
    ∃ before x behind, xs = before ++ x :: behind ∧ (∀ y ∈ before, ∃ z, f y = .ok z) ∧
      f x = .error e := by
  induction xs with
  | nil => cases h
  | cons x xs ih =>
    rw [List.mapM_cons, bind_eq_error] at h
    rcases h with hx | ⟨y, hy, h⟩
    · exact ⟨[], x, xs, rfl, nofun, hx⟩
    · rcases bind_eq_error.1 h with h | ⟨_, -, h⟩
      · obtain ⟨before, x', behind, rfl, hbefore, hx'⟩ := ih h
        exact ⟨x :: before, x', behind, rfl, List.forall_mem_cons.2 ⟨⟨y, hy⟩, hbefore⟩, hx'⟩
      · cases h

theorem getElem?_of_mapM {xs : List α} {ys : List β} {i : Nat} {f : α → Except ε β}
    (h : xs.mapM f = .ok ys) (hx : xs[i]? = some x) :
    ∃ y, ys[i]? = some y ∧ f x = .ok y := by
  have hf := mapM_eq_ok.1 h
  clear h
  induction hf generalizing i with
  | nil => simp at hx
  | cons hy _ ih =>
    cases i with
    | zero =>
      simp only [List.getElem?_cons_zero, Option.some.injEq] at hx
      subst hx
      exact ⟨_, rfl, hy⟩
    | succ i => exact ih hx

/-- A computation succeeds with a result that has a property. -/
def Succeeds (x : Except ε α) (post : α → Prop) : Prop :=
  ∃ a, x = .ok a ∧ post a

theorem Succeeds.ok {post : α → Prop} (h : post a) : Succeeds (.ok a : Except ε α) post :=
  ⟨a, rfl, h⟩

theorem Succeeds.bind {x : Except ε α} {f : α → Except ε β} {middle : α → Prop}
    {post : β → Prop} (h : Succeeds x middle) (hf : ∀ a, middle a → Succeeds (f a) post) :
    Succeeds (x >>= f) post := by
  obtain ⟨a, rfl, ha⟩ := h
  exact hf a ha

/-- A computation ends as another one does, with its result or its error replaced. -/
def Carries (g : ε → ε') (f : α → β) (x : Except ε α) (y : Except ε' β) : Prop :=
  y = (x.map f).mapError g

namespace Carries

variable {α β γ δ ε ε' : Type} {f : α → β} {f' : γ → δ} {g : ε → ε'}

theorem ok (a : α) : Carries g f (.ok a : Except ε α) (.ok (f a) : Except ε' β) :=
  rfl

theorem ok_of_eq {a : α} {b : β} (h : b = f a) :
    Carries g f (.ok a : Except ε α) (.ok b : Except ε' β) :=
  h ▸ ok a

theorem error (e : ε) : Carries g f (.error e : Except ε α) (.error (g e) : Except ε' β) :=
  rfl

theorem exists_ok {x : Except ε α} {b : β} (h : Carries g f x (.ok b : Except ε' β)) :
    ∃ a, x = .ok a ∧ f a = b := by
  cases x with
  | error error => cases h
  | ok a => exact ⟨a, rfl, (Except.ok.inj h).symm⟩

theorem refl (x : Except ε α) : Carries id id x x := by
  cases x <;> rfl

theorem bind_of_ok {x : Except ε α} {y : Except ε' β} {k : α → Except ε γ} {l : β → Except ε' δ}
    (h : Carries g f x y) (hk : ∀ a, x = .ok a → Carries g f' (k a) (l (f a))) :
    Carries g f' (x >>= k) (y >>= l) := by
  subst h
  cases x with
  | error e => rfl
  | ok a => exact hk a rfl

protected theorem bind {x : Except ε α} {y : Except ε' β} {k : α → Except ε γ}
    {l : β → Except ε' δ} (h : Carries g f x y) (hk : ∀ a, Carries g f' (k a) (l (f a))) :
    Carries g f' (x >>= k) (y >>= l) :=
  h.bind_of_ok fun a _ => hk a

protected theorem mapError {x : Except ε α} {y : Except ε' β} {i : ε → ε₁} {j : ε' → ε₂}
    {g' : ε₁ → ε₂}
    (h : Carries g f x y) (hg : ∀ e, j (g e) = g' (i e)) :
    Carries g' f (x.mapError i) (y.mapError j) := by
  subst h
  cases x with
  | error e => exact congrArg Except.error (hg e)
  | ok a => rfl

protected theorem mapM {k : α → Except ε γ} {l : β → Except ε' δ} {xs : List α}
    (h : ∀ a ∈ xs, Carries g f' (k a) (l (f a))) :
    Carries g (List.map f') (xs.mapM k) ((xs.map f).mapM l) := by
  induction xs with
  | nil => exact .ok []
  | cons a xs ih =>
    obtain ⟨ha, hxs⟩ := List.forall_mem_cons.1 h
    rw [List.map_cons, List.mapM_cons, List.mapM_cons]
    exact .bind ha fun b => .bind (ih hxs) fun bs => .ok (b :: bs)

end Carries

end FlowLint
