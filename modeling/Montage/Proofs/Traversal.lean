import Mathlib.Data.List.Forall2

/-!
# Traversals that may fail

The library walks lists with steps that may fail, and stops at the first failure. A walk succeeds
exactly when every step does, its results are the results of the steps in order, and its failure
is the failure of some step. Where a state is handed on from step to step, what every step keeps of
it holds to the end, and the failure is that of the first step that fails.
-/

namespace Montage

variable {α β ε : Type}

/-- A walk for results succeeds exactly with the results of its steps. -/
theorem mapM_eq_ok_iff (f : α → Except ε β) (xs : List α) (ys : List β) :
    xs.mapM f = .ok ys ↔ List.Forall₂ (fun x y => f x = .ok y) xs ys := by
  induction xs generalizing ys with
  | nil => simp [pure, Except.pure, eq_comm]
  | cons x xs ih =>
    rw [List.mapM_cons, List.forall₂_cons_left_iff]
    cases hx : f x with
    | error e => simp [bind, Except.bind]
    | ok y =>
      cases hxs : xs.mapM f with
      | error e =>
        have hnone : ∀ zs, ¬ List.Forall₂ (fun x y => f x = .ok y) xs zs := by
          intro zs hzs
          simp [(ih zs).mpr hzs] at hxs
        simp [bind, Except.bind, hnone]
      | ok zs =>
        have hunique : ∀ us, List.Forall₂ (fun x y => f x = .ok y) xs us ↔ us = zs := by
          intro us
          rw [← ih, hxs, Except.ok.injEq, eq_comm]
        simp [bind, Except.bind, pure, Except.pure, hunique, eq_comm]

/-- A walk whose steps all succeed has results. -/
theorem exists_mapM_eq_ok (f : α → Except ε β) (xs : List α)
    (hsteps : ∀ x ∈ xs, ∃ y, f x = .ok y) : ∃ ys, xs.mapM f = .ok ys := by
  induction xs with
  | nil => exact ⟨[], rfl⟩
  | cons x xs ih =>
    obtain ⟨y, hy⟩ := hsteps x List.mem_cons_self
    obtain ⟨ys, hys⟩ := ih fun z hz => hsteps z (List.mem_cons_of_mem _ hz)
    exact ⟨y :: ys, by simp [hy, hys, bind, Except.bind, pure, Except.pure]⟩

/-- A walk for results fails only as one of its steps does. -/
theorem exists_of_mapM_eq_error (f : α → Except ε β) (xs : List α) (e : ε)
    (h : xs.mapM f = .error e) : ∃ x ∈ xs, f x = .error e := by
  induction xs with
  | nil => simp [pure, Except.pure] at h
  | cons x xs ih =>
    rw [List.mapM_cons] at h
    cases hx : f x with
    | error e' =>
      simp only [hx, bind, Except.bind, Except.error.injEq] at h
      exact ⟨x, List.mem_cons_self, h ▸ hx⟩
    | ok y =>
      cases hxs : xs.mapM f with
      | error e' =>
        simp only [hx, hxs, bind, Except.bind, Except.error.injEq] at h
        obtain ⟨z, hz, hfz⟩ := ih (h ▸ hxs)
        exact ⟨z, List.mem_cons_of_mem _ hz, hfz⟩
      | ok ys => simp [hx, hxs, bind, Except.bind, pure, Except.pure] at h

/-- Results that are changed one by one are changed after the traversal. -/
theorem mapM_map {γ : Type} (f : α → Except ε β) (g : β → γ) (xs : List α) :
    xs.mapM (fun x => (f x).map g) = (xs.mapM f).map (List.map g) := by
  induction xs with
  | nil => rfl
  | cons x xs ih =>
    rw [List.mapM_cons, List.mapM_cons, ih]
    cases f x with
    | error e => rfl
    | ok y => cases xs.mapM f <;> rfl

/-- The result at an index of a walk is that of the step at this index. -/
theorem getElem?_of_mapM_eq_ok (f : α → Except ε β) (xs : List α) (ys : List β)
    (h : xs.mapM f = .ok ys) (i : ℕ) (x : α) (hx : xs[i]? = some x) :
    ∃ y, ys[i]? = some y ∧ f x = .ok y := by
  rw [mapM_eq_ok_iff] at h
  obtain ⟨hi, rfl⟩ := List.getElem?_eq_some_iff.mp hx
  have hj : i < ys.length := h.length_eq ▸ hi
  exact ⟨ys[i], List.getElem?_eq_getElem hj, by simpa using h.get hi hj⟩

/-- Every result of a traversal that succeeds comes from a member of the list. -/
theorem exists_of_mem_of_mapM_eq_ok (f : α → Except ε β) (xs : List α) (ys : List β)
    (h : xs.mapM f = .ok ys) (y : β) (hy : y ∈ ys) : ∃ x ∈ xs, f x = .ok y := by
  rw [mapM_eq_ok_iff] at h
  obtain ⟨i, hi, rfl⟩ := List.mem_iff_getElem.mp hy
  have hj : i < xs.length := h.length_eq ▸ hi
  exact ⟨xs[i], List.getElem_mem hj, by simpa using h.get hj hi⟩

/-- A walk for effects succeeds exactly when every step does. -/
theorem forM_eq_ok_iff (f : α → Except ε Unit) (xs : List α) :
    xs.forM f = .ok () ↔ ∀ x ∈ xs, f x = .ok () := by
  induction xs with
  | nil => simp [pure, Except.pure]
  | cons x xs ih =>
    simp only [List.forM_eq_forM, List.forM_cons, List.forall_mem_cons] at ih ⊢
    cases hx : f x with
    | error e => simp [bind, Except.bind]
    | ok u => simpa [bind, Except.bind] using ih

/-- Walks for effects are equal if their lists look the same and steps that look the same are
equal. -/
theorem forM_eq_of_map_eq {γ : Type} {f g : α → Except ε Unit} {view : α → γ} {xs ys : List α}
    (hview : xs.map view = ys.map view) (hstep : ∀ x y, view x = view y → f x = g y) :
    xs.forM f = ys.forM g := by
  induction xs generalizing ys with
  | nil =>
    rw [List.map_nil, eq_comm, List.map_eq_nil_iff] at hview
    rw [hview]
    rfl
  | cons x xs ih =>
    obtain ⟨y, rest, rfl, hy, hrest⟩ := List.map_eq_cons_iff.mp hview.symm
    simp only [List.forM_eq_forM, List.forM_cons] at ih ⊢
    rw [hstep x y hy.symm, ih hrest.symm]

/-- A walk that hands on a state either has the results of all its steps, or the failure of the
first step that fails. What every step keeps of the state is kept by the walk. -/
theorem mapM_state_cases {σ : Type} (f : α → StateT σ (Except ε) β) (kept : σ → Prop)
    (good : α → β → Prop) (bad : α → ε → Prop)
    (hstep : ∀ x s, kept s → (∃ y t, f x s = .ok (y, t) ∧ good x y ∧ kept t) ∨
      ∃ e, f x s = .error e ∧ bad x e) (xs : List α) (s : σ) (hs : kept s) :
    (∃ ys t, xs.mapM f s = .ok (ys, t) ∧ List.Forall₂ good xs ys ∧ kept t) ∨
      ∃ before x after e, xs = before ++ x :: after ∧ (∀ z ∈ before, ∃ y, good z y) ∧ bad x e ∧
        xs.mapM f s = .error e := by
  induction xs generalizing s with
  | nil => exact Or.inl ⟨[], s, rfl, .nil, hs⟩
  | cons x xs ih =>
    rw [List.mapM_cons]
    rcases hstep x s hs with ⟨y, t, hx, hgood, ht⟩ | ⟨e, hx, hbad⟩
    · rcases ih t ht with ⟨ys, u, hxs, hall, hu⟩ | ⟨before, z, after, e, rfl, hbefore, hbad, hxs⟩
      · refine Or.inl ⟨y :: ys, u, ?_, .cons hgood hall, hu⟩
        simp only [bind, StateT.bind, Except.bind, hx, hxs]
        rfl
      · refine Or.inr ⟨x :: before, z, after, e, rfl, ?_, hbad, ?_⟩
        · exact List.forall_mem_cons.mpr ⟨⟨y, hgood⟩, hbefore⟩
        · simp only [bind, StateT.bind, Except.bind, hx, hxs]
    · refine Or.inr ⟨[], x, xs, e, rfl, by simp, hbad, ?_⟩
      simp only [bind, StateT.bind, Except.bind, hx]

end Montage
