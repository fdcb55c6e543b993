import Mathlib.Data.List.Basic
import Montage.Proofs.Timing

/-!
# Schedules solve the equations of their placements

Each placement is an equation: it gives the start of an entry outright, or in terms of another span
of the same timeline, which may stand before it or after it. A schedule is a solution of all these
equations. There is no other one, because every chain of equations ends at a start that is given
outright. Timeline records show the spans of a schedule next to the placements they solve, so the
two always agree.
-/

namespace Montage

variable {T : Type} [TimeScale T]

namespace Project

/-! ## Equations -/

/-- What the placement of the entry at an index says about its start, given the spans of all
entries. -/
def StartEquation (p : Project) (spans : List (Span T)) (i : ℕ) (placement : Placement)
    (start : T) : Prop :=
  match placement with
  | .fixed instant => start = TimeScale.seconds instant
  | .implicit =>
    if i = 0 then start = 0
    else ∃ before, spans[i - 1]? = some before ∧ start = before.stop
  | .relative target anchor offset =>
    ∃ j base, p.FirstNamed target j ∧ spans[j]? = some base ∧
      start = (match anchor with
        | .start => base.start
        | .stop => base.stop) + (offset.map Offset.seconds).getD 0

/-- Spans for all entries, which last as they should and start as their placements say. -/
structure Solution (p : Project) (known : KnownDurations T) (defaultText : T)
    (spans : List (Span T)) : Prop where
  length : spans.length = p.timeline.length
  solved : ∀ (i : ℕ) (entry : Entry) (span : Span T), p.timeline[i]? = some entry →
    spans[i]? = some span → span.duration = p.entryDuration known defaultText entry ∧
      p.StartEquation spans i entry.placement span.start

variable {p : Project} {known : KnownDurations T} {defaultText : T} {spans : List (Span T)}

/-- Where the entry that determines a start exists, the equation for the start is solved by what
follows from the span of that entry. -/
theorem startEquation_iff {i : ℕ} {entry : Entry} (hentry : p.timeline[i]? = some entry)
    (hfound : ∀ name, p.startLink i ≠ .missing name) {base : Span T}
    (hbase : ∀ j, p.startLink i = .next j → spans[j]? = some base) (start : T) :
    p.StartEquation spans i entry.placement start ↔ start = startFrom i entry.placement base := by
  cases hplacement : entry.placement with
  | fixed instant => rfl
  | implicit =>
    by_cases hi : i = 0
    · simp [StartEquation, startFrom, hi]
    · have hlink : p.startLink i = .next (i - 1) :=
        startLink_eq_next_iff.mpr ⟨entry, hentry, Or.inl ⟨hplacement, by omega⟩⟩
      simp [StartEquation, startFrom, hi, hbase _ hlink]
  | relative target anchor offset =>
    cases hindex : p.entryIndex? target with
    | none =>
      have habsent : ∀ e ∈ p.timeline, e.name ≠ target := by simpa [entryIndex?] using hindex
      exact absurd (startLink_eq_missing_iff.mpr ⟨entry, _, _, hentry, hplacement, habsent⟩)
        (hfound target)
    | some j =>
      have hfirst : p.FirstNamed target j := entryIndex?_eq_some_iff.mp hindex
      have hlink : p.startLink i = .next j :=
        startLink_eq_next_iff.mpr ⟨entry, hentry, Or.inr ⟨_, _, _, hplacement, hfirst⟩⟩
      cases anchor <;>
        simp [StartEquation, startFrom, ← entryIndex?_eq_some_iff, hindex, hbase _ hlink]

/-- In a solution, the span of an entry follows from the span that its start is determined by. -/
theorem Solution.getElem?_eq (h : p.Solution known defaultText spans) {i : ℕ} {entry : Entry}
    (hentry : p.timeline[i]? = some entry) (hfound : ∀ name, p.startLink i ≠ .missing name)
    {base : Span T} (hbase : ∀ j, p.startLink i = .next j → spans[j]? = some base) :
    spans[i]? =
      some ⟨startFrom i entry.placement base, p.entryDuration known defaultText entry⟩ := by
  have hi : i < spans.length := by
    rw [h.length]
    exact (List.getElem?_eq_some_iff.mp hentry).1
  have hspan : spans[i]? = some spans[i] := List.getElem?_eq_getElem hi
  obtain ⟨hduration, hstart⟩ := h.solved i entry _ hentry hspan
  rw [startEquation_iff hentry hfound hbase] at hstart
  rw [hspan, ← hduration, ← hstart]

/-- A solution has the starts that follow from the chains of entries. The induction follows a chain
from its end, where no other span is needed. -/
theorem Solution.span_eq (h : p.Solution known defaultText spans) {i : Fin p.timeline.length}
    {start : T}
    (hstart : p.StartsAt (fun j => p.entryDuration known defaultText (p.timeline.get j)) i start) :
    spans[i]? = some ⟨start, p.entryDuration known defaultText (p.timeline.get i)⟩ := by
  induction hstart with
  | @stop i hlink =>
    exact h.getElem?_eq (List.getElem?_eq_getElem i.isLt) (by simp [hlink]) (by simp [hlink])
  | @next i j base hlink hbase ih =>
    refine h.getElem?_eq (List.getElem?_eq_getElem i.isLt) (by simp [hlink]) fun k hk => ?_
    obtain rfl : j.val = k := Link.next.inj (hlink.symm.trans hk)
    exact ih

/-- A schedule solves the equations of its placements. -/
theorem solution_of_schedule (h : p.schedule known defaultText = .ok spans) :
    p.Solution known defaultText spans := by
  refine ⟨length_of_schedule h, fun i entry span hentry hspan => ?_⟩
  obtain ⟨base, hspan', hbase⟩ := span_equation h hentry
  obtain rfl := Option.some.inj (hspan'.symm.trans hspan)
  obtain ⟨hi, -⟩ := List.getElem?_eq_some_iff.mp hentry
  have hends := (p.exists_spans_iff _).mp ⟨spans, h⟩ i hi
  have hfound : ∀ name, p.startLink i ≠ .missing name :=
    fun name hmissing => hends.not_breaks name (.missing hmissing)
  refine ⟨rfl, ?_⟩
  rw [startEquation_iff hentry hfound fun j hj => hbase j (startLink_lt hj) hj]

/-- Where there is a schedule, it is all that solves the equations of the placements. -/
theorem solution_iff (h : p.schedule known defaultText = .ok spans) (other : List (Span T)) :
    p.Solution known defaultText other ↔ other = spans := by
  constructor
  · intro hother
    apply List.ext_getElem?'
    intro i hi
    rw [hother.length, length_of_schedule h, max_self] at hi
    obtain ⟨start, hstart, hspan⟩ := span_of_schedule h ⟨i, hi⟩
    exact (hother.span_eq hstart).trans hspan.symm
  · rintro rfl
    exact solution_of_schedule h

end Project

/-! ## Records -/

namespace TimelineRecord

/-- The span that a record shows. -/
def span (record : TimelineRecord) : Span Float :=
  ⟨record.startTime, record.duration⟩

/-- The record at an index tells in one way how its start was given, and this agrees with the start
that it shows and with those that other records show. -/
def Agrees (records : List TimelineRecord) (i : ℕ) (record : TimelineRecord) : Prop :=
  match record.startAt, record.startAfterPrevious, record.relativeStart with
  | some instant, none, none => record.startTime = instant
  | none, some true, none =>
    i ≠ 0 ∧ ∃ before, records[i - 1]? = some before ∧ record.startTime = before.endTime
  | none, none, some relative =>
    ∃ j base, records.findIdx? (fun other => other.name = relative.target) = some j ∧
      records[j]? = some base ∧
      record.startTime = (match relative.anchor with
        | .start => base.startTime
        | .stop => base.endTime) + relative.offset
  | _, _, _ => False

end TimelineRecord

namespace Resolved

variable {r : Resolved} {known : KnownDurations Float} {defaultText : Float}
  {spans : List (Span Float)} {records : List TimelineRecord}
  (hspans : r.project.schedule known defaultText = .ok spans)
  (hrecords : r.records known defaultText = .ok records)

include hspans hrecords

/-- Every entry has a record, which is made from its element and its span. -/
theorem getElem?_records {i : ℕ} {entry : Entry} (hentry : r.project.timeline[i]? = some entry)
    {span : Span Float} (hspan : spans[i]? = some span) :
    ∃ element, r.requireElement entry = .ok element ∧
      records[i]? = some (.make i (r.layer i) entry element span) := by
  rw [Resolved.records, hspans] at hrecords
  simp only [bind, Except.bind] at hrecords
  have hpair : (r.project.timeline.zip spans)[i]? = some (entry, span) :=
    List.getElem?_zip_eq_some.mpr ⟨hentry, hspan⟩
  have hitem : (r.project.timeline.zip spans).zipIdx[i]? = some ((entry, span), i) := by
    simp [List.getElem?_zipIdx, hpair]
  obtain ⟨record, hrecord, hstep⟩ := getElem?_of_mapM_eq_ok _ _ _ hrecords i _ hitem
  cases helement : r.requireElement entry with
  | error e => simp [helement] at hstep
  | ok element =>
    simp only [helement, pure, Except.pure, Except.ok.injEq] at hstep
    exact ⟨element, rfl, by rw [hrecord, hstep]⟩

/-- There is one record for each entry. -/
theorem length_records : records.length = r.project.timeline.length := by
  rw [Resolved.records, hspans] at hrecords
  have hlength := ((mapM_eq_ok_iff _ _ _).mp hrecords).length_eq
  rw [List.length_zipIdx, List.length_zip, Project.length_of_schedule hspans, min_self] at hlength
  exact hlength.symm

/-- What all records show, read off from the entries and spans that they are made from. -/
theorem map_records {β : Type} (f : TimelineRecord → β) (shown : List β)
    (hlength : shown.length = r.project.timeline.length)
    (hshown : ∀ (i : ℕ) (entry : Entry) (element : Element) (span : Span Float),
      r.project.timeline[i]? = some entry → spans[i]? = some span →
      shown[i]? = some (f (.make i (r.layer i) entry element span))) :
    records.map f = shown := by
  apply List.ext_getElem?'
  intro i hi
  rw [List.length_map, length_records hspans hrecords, hlength, max_self] at hi
  have hentry := List.getElem?_eq_getElem hi
  have hspan := List.getElem?_eq_getElem (Project.length_of_schedule hspans ▸ hi)
  obtain ⟨element, -, hrecord⟩ := getElem?_records hspans hrecords hentry hspan
  rw [List.getElem?_map, hrecord, hshown i _ element _ hentry hspan, Option.map_some]

/-- Records show the spans of the schedule. -/
theorem map_span_records : records.map TimelineRecord.span = spans :=
  map_records hspans hrecords _ _ (Project.length_of_schedule hspans) fun _ _ _ _ _ hspan => hspan

/-- Records show the ends of the schedule. -/
theorem map_endTime_records : records.map TimelineRecord.endTime = spans.map Span.stop := by
  refine map_records hspans hrecords _ _ ?_ ?_
  · rw [List.length_map, Project.length_of_schedule hspans]
  · intro i entry element span hentry hspan
    rw [List.getElem?_map, hspan, Option.map_some]
    rfl

/-- Records show the names of entries. -/
theorem map_name_records :
    records.map TimelineRecord.name = r.project.timeline.map Entry.name := by
  refine map_records hspans hrecords _ _ (List.length_map ..) ?_
  intro i entry element span hentry hspan
  rw [List.getElem?_map, hentry, Option.map_some]
  rfl

/-- The first record of a name stands where the first entry of the name stands. -/
theorem findIdx?_records (name : String) :
    records.findIdx? (fun record => record.name = name) = r.project.entryIndex? name := by
  have hfound := congrArg (List.findIdx? fun other => other = name)
    (map_name_records hspans hrecords)
  rwa [List.findIdx?_map, List.findIdx?_map] at hfound

/-- A span of the schedule is shown by a record. -/
theorem exists_record {i : ℕ} {span : Span Float} (hspan : spans[i]? = some span) :
    ∃ record, records[i]? = some record ∧ record.startTime = span.start ∧
      record.endTime = span.stop := by
  have hi : i < r.project.timeline.length := by
    rw [← Project.length_of_schedule hspans]
    exact (List.getElem?_eq_some_iff.mp hspan).1
  obtain ⟨element, -, hrecord⟩ :=
    getElem?_records hspans hrecords (List.getElem?_eq_getElem hi) hspan
  exact ⟨_, hrecord, rfl, rfl⟩

/-- Every record agrees with the others: the schedule solves the equation of its placement. -/
theorem agrees_of_records {i : ℕ} {record : TimelineRecord}
    (hrecord : records[i]? = some record) : record.Agrees records i := by
  have hi : i < r.project.timeline.length := by
    rw [← length_records hspans hrecords]
    exact (List.getElem?_eq_some_iff.mp hrecord).1
  have hentry := List.getElem?_eq_getElem hi
  have hspan := List.getElem?_eq_getElem (Project.length_of_schedule hspans ▸ hi)
  obtain ⟨element, -, hmade⟩ := getElem?_records hspans hrecords hentry hspan
  obtain rfl := Option.some.inj (hmade.symm.trans hrecord)
  obtain ⟨-, hstart⟩ := (Project.solution_of_schedule hspans).solved i _ _ hentry hspan
  unfold TimelineRecord.Agrees TimelineRecord.make
  cases hplacement : r.project.timeline[i].placement with
  | fixed instant =>
    rw [hplacement] at hstart
    exact hstart
  | implicit =>
    rw [hplacement] at hstart
    by_cases hzero : i = 0
    · simp only [Project.StartEquation, if_pos hzero] at hstart
      simp only [if_pos hzero]
      exact hstart
    · simp only [Project.StartEquation, if_neg hzero] at hstart
      obtain ⟨before, hbefore, hsum⟩ := hstart
      obtain ⟨other, hother, -, hendTime⟩ := exists_record hspans hrecords hbefore
      simp only [if_neg hzero]
      exact ⟨hzero, other, hother, hsum.trans hendTime.symm⟩
  | relative target anchor offset =>
    rw [hplacement] at hstart
    obtain ⟨j, base, hfirst, hbase, hsum⟩ := hstart
    -- Names of records are names of entries, so both look for the base at the same index.
    obtain ⟨other, hother, hstartTime, hendTime⟩ := exists_record hspans hrecords hbase
    refine ⟨j, other, ?_, hother, ?_⟩
    · rw [← Project.entryIndex?_eq_some_iff] at hfirst
      exact (findIdx?_records hspans hrecords target).trans hfirst
    · rw [hstartTime, hendTime]
      exact hsum

end Resolved

/-! ## Solutions and records -/

namespace Project

/-- A schedule solves the equations of the placements, and nothing else does. A project that
resolves has such a schedule, and records that show its starts, lengths and ends; how the start of a
record was given agrees with what the records show. -/
theorem schedule_solves_placements (p : Project) :
    (∀ (T : Type) [TimeScale T] (known : KnownDurations T) (defaultText : T)
      (spans : List (Span T)), p.schedule known defaultText = .ok spans →
        ∀ other, p.Solution known defaultText other ↔ other = spans) ∧
      ∀ (r : Resolved) (known : KnownDurations Float) (defaultText : Float),
        p.resolve = .ok r → ∃ spans records,
          r.project.schedule known defaultText = .ok spans ∧
          r.records known defaultText = .ok records ∧
          records.map TimelineRecord.span = spans ∧
          records.map TimelineRecord.endTime = spans.map Span.stop ∧
          ∀ (i : ℕ) (record : TimelineRecord), records[i]? = some record →
            record.Agrees records i := by
  refine ⟨fun T _ known defaultText spans h => solution_iff h, fun r known defaultText h => ?_⟩
  have hr := resolvesTo_of_resolve h
  obtain ⟨spans, hspans⟩ := hr.exists_schedule known defaultText
  obtain ⟨records, hrecords⟩ := hr.exists_records known defaultText
  exact ⟨spans, records, hspans, hrecords, Resolved.map_span_records hspans hrecords,
    Resolved.map_endTime_records hspans hrecords,
    fun i record => Resolved.agrees_of_records hspans hrecords⟩

/-- A film whose second line waits for the third one to end. -/
def relay : Project where
  outputName := "relay"
  elements := [.text ⟨"line", "Go", []⟩]
  groups := []
  timeline :=
    [⟨"#1", "line", .implicit, none, none⟩,
      ⟨"#2", "line", .relative "#3" .stop none, none, none⟩,
      ⟨"#3", "line", .relative "#1" .stop none, none, none⟩,
      ⟨"#4", "line", .implicit, none, none⟩]

/-- With lines of five seconds, the third one is the second one to be seen, and there is no other
way to place them. The records of the film agree. -/
theorem relay_schedule :
    (∀ other : List (Span ℚ), relay.Solution [] 5 other ↔
      other = [⟨0, some 5⟩, ⟨10, some 5⟩, ⟨5, some 5⟩, ⟨10, some 5⟩]) ∧
      ∃ r spans records, relay.resolve = .ok r ∧ r.project.schedule [] 5.0 = .ok spans ∧
        r.records [] 5.0 = .ok records ∧ records.map TimelineRecord.span = spans ∧
        records.map TimelineRecord.endTime = spans.map Span.stop ∧
        ∀ (i : ℕ) (record : TimelineRecord), records[i]? = some record →
          record.Agrees records i := by
  have hschedule : relay.schedule [] (5 : ℚ) =
      .ok [⟨0, some 5⟩, ⟨10, some 5⟩, ⟨5, some 5⟩, ⟨10, some 5⟩] := by decide +kernel
  have hresolve : relay.resolve = .ok ⟨relay, [0, 0, 0, 0]⟩ := by decide +kernel
  obtain ⟨hunique, hrecords⟩ := schedule_solves_placements relay
  obtain ⟨spans, records, hshown⟩ := hrecords _ [] 5.0 hresolve
  exact ⟨hunique ℚ [] 5 _ hschedule, _, spans, records, hresolve, hshown⟩

end Project

end Montage
