import Mathlib.Data.List.Induction

/-!
# Histories of a machine

A machine is given by what an event leads to in a state, if the event is possible there. A history
is a list of events each of which is possible in its turn. What every step keeps, every history
keeps; and what happens in the middle of a history happens in a state that an earlier history leads
to.
-/

namespace Montage.Runs

variable {σ ε : Type} {step? : σ → ε → Option σ} {s t : σ} {e : ε} {before after events : List ε}

/-- A history passes through the state between its two parts. -/
theorem append_iff : (before ++ after).foldlM step? s = some t ↔
    ∃ u, before.foldlM step? s = some u ∧ after.foldlM step? u = some t := by
  rw [List.foldlM_append, Option.bind_eq_bind, Option.bind_eq_some_iff]

/-- A history passes through the state after its first event. -/
theorem cons_iff : (e :: after).foldlM step? s = some t ↔
    ∃ u, step? s e = some u ∧ after.foldlM step? u = some t := by
  rw [List.foldlM_cons, Option.bind_eq_bind, Option.bind_eq_some_iff]

/-- An event in a history leads from the state before it to the state after it. -/
theorem exists_step (h : (before ++ e :: after).foldlM step? s = some t) :
    ∃ u v, before.foldlM step? s = some u ∧ step? u e = some v ∧
      after.foldlM step? v = some t := by
  obtain ⟨u, hbefore, hrest⟩ := append_iff.mp h
  obtain ⟨v, hstep, hafter⟩ := cons_iff.mp hrest
  exact ⟨u, v, hbefore, hstep, hafter⟩

/-- What holds at the start and is kept by every step holds after every history. It may speak of
the history so far. -/
theorem history_keeps (kept : List ε → σ → Prop) (hstart : kept [] s)
    (hstep : ∀ events u e v, kept events u → step? u e = some v → kept (events ++ [e]) v)
    (h : events.foldlM step? s = some t) : kept events t := by
  induction events using List.reverseRecOn generalizing t with
  | nil =>
    obtain rfl := Option.some.inj h
    exact hstart
  | append_singleton events e ih =>
    obtain ⟨u, hevents, hlast⟩ := append_iff.mp h
    obtain ⟨v, hv, hend⟩ := cons_iff.mp hlast
    obtain rfl := Option.some.inj hend
    exact hstep events u e _ (ih hevents) hv

/-- What holds of a state and is kept by every step holds after every history. -/
theorem run_keeps (kept : σ → Prop) (hstart : kept s)
    (hstep : ∀ u e v, kept u → step? u e = some v → kept v)
    (h : events.foldlM step? s = some t) : kept t :=
  history_keeps (fun _ u => kept u) hstart (fun _ u e v => hstep u e v) h

end Montage.Runs
