import Mathlib.Data.List.Basic
import Montage.Proofs.Resolution

/-!
# Schedules and the entries they are made from

A schedule is computed along chains, one for each entry. The chain of an entry is the chain of the
entry that determines its start, with the entry in front, so the spans of a schedule determine each
other entry by entry: each start follows from one other span of the same schedule.
-/

namespace Montage

namespace Project

variable {T : Type} [TimeScale T]

/-- A schedule consists of the spans of entries that last as they should. -/
theorem schedule_eq (p : Project) (known : KnownDurations T) (defaultText : T) :
    p.schedule known defaultText =
      p.spans fun i => p.entryDuration known defaultText (p.timeline.get i) := by
  have hlengths : ∀ i : Fin p.timeline.length, (p.durations known defaultText).get
      (i.cast (p.length_durations known defaultText).symm) =
        p.entryDuration known defaultText (p.timeline.get i) := fun i => List.getElem_map ..
  simp only [schedule, hlengths]

/-- A timeline whose chains all end has a schedule, whatever was measured. -/
theorem exists_schedule (p : Project) (known : KnownDurations T) (defaultText : T)
    (hends : ∀ i < p.timeline.length, Chain.Ends p.startLink i) :
    ∃ spans, p.schedule known defaultText = .ok spans :=
  (p.exists_spans_iff _).mpr hends

/-- A schedule has one span for each entry. -/
theorem length_of_schedule {p : Project} {known : KnownDurations T} {defaultText : T}
    {spans : List (Span T)} (h : p.schedule known defaultText = .ok spans) :
    spans.length = p.timeline.length := by
  simpa using (forall₂_of_spans h).length_eq.symm

/-- The span at an index of a schedule has the start that follows from the chain of its entry. -/
theorem span_of_schedule {p : Project} {known : KnownDurations T} {defaultText : T}
    {spans : List (Span T)} (h : p.schedule known defaultText = .ok spans)
    (i : Fin p.timeline.length) :
    ∃ start, p.StartsAt (fun j => p.entryDuration known defaultText (p.timeline.get j)) i start ∧
      spans[i]? = some ⟨start, p.entryDuration known defaultText (p.timeline.get i)⟩ := by
  have hi : i.val < spans.length := by rw [length_of_schedule h]; exact i.isLt
  rw [schedule_eq] at h
  obtain ⟨-, hall⟩ := List.forall₂_iff_get.mp (forall₂_of_spans h)
  have hspan := hall i (by simp) hi
  simp only [List.get_eq_getElem, List.getElem_finRange, Fin.cast_mk, Fin.eta] at hspan
  refine ⟨spans[i].start, hspan.1, ?_⟩
  rw [List.get_eq_getElem, ← hspan.2]
  exact List.getElem?_eq_getElem hi

/-- Each span of a schedule follows from its entry and from the span that its entry refers to. -/
theorem span_equation {p : Project} {known : KnownDurations T} {defaultText : T}
    {spans : List (Span T)} (h : p.schedule known defaultText = .ok spans) {i : ℕ} {entry : Entry}
    (hentry : p.timeline[i]? = some entry) :
    ∃ base, spans[i]? = some ⟨startFrom i entry.placement base,
        p.entryDuration known defaultText entry⟩ ∧
      ∀ j < p.timeline.length, p.startLink i = .next j → spans[j]? = some base := by
  obtain ⟨hi, rfl⟩ := List.getElem?_eq_some_iff.mp hentry
  obtain ⟨start, hstart, hspan⟩ := span_of_schedule h ⟨i, hi⟩
  cases hstart with
  | stop hlink => exact ⟨_, hspan, fun j _ hnext => by simp [hnext] at hlink⟩
  | next hlink hbase =>
    rename_i k base
    refine ⟨_, hspan, fun j hj hnext => ?_⟩
    obtain rfl : k.val = j := Link.next.inj (hlink.symm.trans hnext)
    obtain ⟨base', hbase', hspan'⟩ := span_of_schedule h k
    rw [hbase.unique hbase']
    exact hspan'

/-! ## Usable timelines -/

/-- Every chain of a usable project ends. -/
theorem Usable.startLink_ends {p : Project} (h : p.Usable) (i : ℕ)
    (hi : i < p.timeline.length) : Chain.Ends p.startLink i :=
  p.checkAcyclic_eq_ok_iff.mp h.checkAcyclic_eq_ok i hi

/-- A relative entry of a usable project refers to an entry that stands before it. -/
theorem Usable.relative_before {p : Project} (h : p.Usable) {i : ℕ} {entry : Entry}
    (hentry : p.timeline[i]? = some entry) {target : String} {anchor : Anchor}
    {offset : Option Offset} (hplacement : entry.placement = .relative target anchor offset) :
    ∃ j < i, ∃ before, p.startLink i = .next j ∧ p.timeline[j]? = some before ∧
      before.name = target := by
  have htarget : entry.relativeTarget? = some target := by
    simp [Entry.relativeTarget?, hplacement]
  have hexists := h.references.relative entry (List.mem_of_getElem? hentry) target htarget
  rw [ne_eq, ← entryIndex?_eq_none_iff] at hexists
  obtain ⟨j, hj⟩ := Option.ne_none_iff_exists'.mp hexists
  obtain ⟨before, hbefore, hname⟩ := entryIndex?_eq_some hj
  have hlink : p.startLink i = .next j := by simp [startLink, hentry, hplacement, hj]
  have hle : j ≤ i := h.timeline.backward i entry hentry target htarget j hj
  have hne : j ≠ i := by
    rintro rfl
    obtain ⟨hi, -⟩ := List.getElem?_eq_some_iff.mp hentry
    exact (h.startLink_ends j hi).link_ne_self hlink
  exact ⟨j, by omega, before, hlink, hbefore, hname⟩

end Project

/-! ## Resolved timelines -/

namespace Project.ResolvesTo

variable {p : Project} {r : Resolved}

/-- A resolved project has a schedule, whatever was measured. -/
theorem exists_schedule {T : Type} [TimeScale T] (hr : p.ResolvesTo r) (known : KnownDurations T)
    (defaultText : T) : ∃ spans, r.project.schedule known defaultText = .ok spans := by
  obtain ⟨-, hacyclic, -, hproject⟩ := Project.resolve_eq_ok hr.resolve
  apply r.project.exists_schedule known defaultText
  rw [hproject]
  exact p.checkAcyclic_eq_ok_iff.mp hacyclic

/-- The timeline records of a resolved project exist, whatever was measured. -/
theorem exists_records (hr : p.ResolvesTo r) (known : KnownDurations Float) (defaultText : Float) :
    ∃ records, r.records known defaultText = .ok records := by
  obtain ⟨spans, hspans⟩ := hr.exists_schedule known defaultText
  rw [Resolved.records, hspans]
  apply exists_mapM_eq_ok
  rintro ⟨⟨entry, span⟩, i⟩ hmem
  have hentry : entry ∈ r.project.timeline :=
    (List.of_mem_zip (List.fst_mem_of_mem_zipIdx hmem)).1
  rw [hr.timeline] at hentry
  obtain ⟨e, -, -, -, he⟩ := hr.shown entry hentry
  exact ⟨_, by simp only [he, bind, Except.bind, pure, Except.pure]; rfl⟩

end Project.ResolvesTo

end Montage
