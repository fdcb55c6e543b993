import Mathlib.Data.List.FinRange
import Montage.Proofs.Chain
import Montage.Proofs.Traversal

/-!
# The search for starts

The start of an entry follows from the chain of entries that determine it. The search for it keeps a
table, which outlasts the search and is used by the next one. Two things are true of the table all
the time: a start in it is the start that follows from the chain, and the entries with a mark are
those that the search under way has passed. So an entry whose start is known is on a chain that
ends, and an entry that is met with a mark closes a circle.
-/

namespace Montage

open Chain

variable {T : Type} {p : Project}

/-! ## What determines a start -/

namespace Project

/-- A start is determined by the entry before, or by the first entry of the name referred to. -/
theorem startLink_eq_next_iff {i j : ℕ} : p.startLink i = .next j ↔
    ∃ entry, p.timeline[i]? = some entry ∧ (entry.placement = .implicit ∧ i = j + 1 ∨
      ∃ target anchor offset, entry.placement = .relative target anchor offset ∧
        p.FirstNamed target j) := by
  unfold startLink
  cases p.timeline[i]? with
  | none => simp
  | some entry =>
    cases hplacement : entry.placement with
    | fixed instant => simp [hplacement]
    | implicit =>
      by_cases hi : i = 0
      · simp [hplacement, hi]
      · have hbefore : i - 1 = j ↔ i = j + 1 := by omega
        simp [hplacement, hi, hbefore]
    | relative target anchor offset =>
      cases hindex : p.entryIndex? target <;>
        simp [hplacement, ← entryIndex?_eq_some_iff, hindex]

/-- A start has nothing to follow from where a name is referred to that no entry has. -/
theorem startLink_eq_missing_iff {i : ℕ} {name : String} : p.startLink i = .missing name ↔
    ∃ entry anchor offset, p.timeline[i]? = some entry ∧
      entry.placement = .relative name anchor offset ∧ ∀ e ∈ p.timeline, e.name ≠ name := by
  unfold startLink
  cases p.timeline[i]? with
  | none => simp
  | some entry =>
    cases hplacement : entry.placement with
    | fixed instant => simp [hplacement]
    | implicit =>
      by_cases hi : i = 0 <;> simp [hplacement, hi]
    | relative target anchor offset =>
      cases hindex : p.entryIndex? target with
      | none =>
        have habsent : ∀ e ∈ p.timeline, e.name ≠ target := by simpa [entryIndex?] using hindex
        simp only [hplacement, hindex, Link.missing.injEq]
        constructor
        · rintro rfl
          exact ⟨entry, anchor, offset, rfl, hplacement, habsent⟩
        · rintro ⟨_, _, _, ⟨⟩, hother, -⟩
          rw [hplacement, Placement.relative.injEq] at hother
          exact hother.1
      | some j =>
        obtain ⟨e, he, hname⟩ := Option.map_eq_some_iff.mp (entryIndex?_eq_some_iff.mp hindex).1
        simp only [hplacement, hindex, reduceCtorEq, false_iff]
        rintro ⟨_, _, _, ⟨⟩, hother, habsent⟩
        rw [hplacement, Placement.relative.injEq] at hother
        exact habsent e (List.mem_of_getElem? he) (hname.trans hother.1)

end Project

/-! ## Tables -/

namespace StartTable

section Entries

variable {n : ℕ} (table : StartTable T n) (i k : Fin n)

/-- At first no entry has a start. -/
@[simp] theorem start?_empty : (empty n : StartTable T n).start? i = none := by
  simp [start?, empty]

/-- At first no entry is marked. -/
@[simp] theorem marked_empty : (empty n : StartTable T n).marked i = false := by
  simp [marked, empty]

/-- Entering an entry marks it and no other. -/
@[simp] theorem marked_enter :
    (table.enter i).marked k = if i = k then true else table.marked k := by
  simp [marked, enter, Vector.getElem_set, Fin.ext_iff]

/-- Settling an entry sets its start and no other. -/
@[simp] theorem start?_settle (start : T) :
    (table.settle i start).start? k = if i = k then some start else table.start? k := by
  simp [start?, settle, Vector.getElem_set, Fin.ext_iff]

/-- Settling an entry removes its mark and no other. -/
@[simp] theorem marked_settle (start : T) :
    (table.settle i start).marked k = if i = k then false else table.marked k := by
  simp [marked, settle, Vector.getElem_set, Fin.ext_iff]

end Entries

/-! ## Marks -/

/-- A search that began at one index has passed some others and come to an index. The marks of the
table are those of the indices passed. -/
structure Trail (table : StartTable T p.timeline.length) (first : ℕ) (passed : List ℕ)
    (i : Fin p.timeline.length) : Prop where
  passage : Passage p.startLink first passed i
  marks : ∀ k : Fin p.timeline.length, table.marked k = true ↔ k.val ∈ passed

variable {table table' : StartTable T p.timeline.length} {first : ℕ} {passed : List ℕ}
  {i j : Fin p.timeline.length}

/-- A search begins without marks. -/
theorem trail_nil (h : ∀ k : Fin p.timeline.length, table.marked k = false)
    (i : Fin p.timeline.length) : table.Trail i [] i :=
  ⟨passage_nil _ _, by simp [h]⟩

/-- A search that goes on has passed one more index. -/
theorem Trail.enter (h : table.Trail first passed i) (hmark : table.marked i = false)
    (hlink : p.startLink i = .next j) :
    (table.enter i).Trail first (passed ++ [i.val]) j := by
  have hfresh : i.val ∉ passed := by simp [← h.marks, hmark]
  refine ⟨h.passage.next hfresh hlink, fun k => ?_⟩
  rw [marked_enter, List.mem_append, List.mem_singleton, ← h.marks k]
  by_cases hik : i = k
  · simp [hik]
  · have hne : k.val ≠ i.val := fun heq => hik (Fin.ext heq.symm)
    simp [hik, hne]

/-- A search that comes to a marked entry has closed a circle. -/
theorem Trail.lasso (h : table.Trail first passed i) (hmark : table.marked i = true) :
    Lasso p.startLink first passed i :=
  h.passage.lasso ((h.marks i).mp hmark)

/-- A table that is settled after a mark was set has the marks it had before. -/
theorem marked_settle_of_enter (hmark : table.marked i = false)
    (h : ∀ k, table'.marked k = (table.enter i).marked k) (start : T) (k : Fin p.timeline.length) :
    (table'.settle i start).marked k = table.marked k := by
  rw [marked_settle, h, marked_enter]
  by_cases hik : i = k
  · rw [if_pos hik, ← hik, hmark]
  · rw [if_neg hik, if_neg hik]

end StartTable

/-! ## Starts -/

variable [TimeScale T] {length : Fin p.timeline.length → Option T}

namespace Project

/-- An entry starts at an instant that follows from the chain of entries that determine it. -/
inductive StartsAt (p : Project) (length : Fin p.timeline.length → Option T) :
    Fin p.timeline.length → T → Prop
  | stop {i : Fin p.timeline.length} (h : p.startLink i = .stop) :
    StartsAt p length i (startFrom i (p.timeline.get i).placement ⟨0, none⟩)
  | next {i j : Fin p.timeline.length} {base : T} (h : p.startLink i = .next j)
    (hbase : StartsAt p length j base) :
    StartsAt p length i (startFrom i (p.timeline.get i).placement ⟨base, length j⟩)

/-- An entry with a start is on a chain that ends. -/
theorem StartsAt.ends {i : Fin p.timeline.length} {start : T} (h : p.StartsAt length i start) :
    Ends p.startLink i := by
  induction h with
  | stop hlink => exact .stop hlink
  | next hlink hbase ih => exact .next hlink ih

/-- An entry has one start at most. -/
theorem StartsAt.unique {i : Fin p.timeline.length} {start other : T}
    (h : p.StartsAt length i start) (h' : p.StartsAt length i other) : start = other := by
  induction h generalizing other with
  | stop hlink =>
    cases h' with
    | stop hlink' => rfl
    | next hlink' hbase' => simp [hlink] at hlink'
  | next hlink hbase ih =>
    cases h' with
    | stop hlink' => simp [hlink] at hlink'
    | next hlink' hbase' =>
      obtain rfl := Fin.ext (Link.next.inj (hlink.symm.trans hlink'))
      rw [ih hbase']

end Project

namespace StartTable

/-- Every start in the table is that of its entry. -/
def Sound (length : Fin p.timeline.length → Option T) (table : StartTable T p.timeline.length) :
    Prop :=
  ∀ (i : Fin p.timeline.length) (start : T), table.start? i = some start →
    p.StartsAt length i start

variable {table : StartTable T p.timeline.length} {i : Fin p.timeline.length}

/-- The empty table is sound. -/
theorem sound_empty : (empty p.timeline.length).Sound length := by
  intro i start h
  simp at h

/-- A mark does not change what is known. -/
theorem Sound.enter (h : table.Sound length) (i : Fin p.timeline.length) :
    (table.enter i).Sound length := h

/-- Keeping the start of an entry keeps the table sound. -/
theorem Sound.settle (h : table.Sound length) {start : T} (hstart : p.StartsAt length i start) :
    (table.settle i start).Sound length := by
  intro k other hk
  rw [start?_settle] at hk
  split at hk
  · rename_i heq
    subst heq
    exact Option.some.inj hk ▸ hstart
  · exact h k other hk

/-- Between two searches the table is sound and has no marks. -/
structure Idle (length : Fin p.timeline.length → Option T)
    (table : StartTable T p.timeline.length) : Prop where
  sound : table.Sound length
  unmarked : ∀ i : Fin p.timeline.length, table.marked i = false

/-- The empty table is idle. -/
theorem idle_empty : (empty p.timeline.length).Idle length :=
  ⟨sound_empty, marked_empty⟩

end StartTable

open StartTable

/-- Where an index stands in the list of all indices, the indices before it are the smaller ones. -/
theorem mem_of_lt_of_finRange {n : ℕ} {before after : List (Fin n)} {i j : Fin n}
    (hsplit : List.finRange n = before ++ i :: after) (hj : j < i) : j ∈ before := by
  have hsorted := List.pairwise_lt_finRange n
  have hmem := List.mem_finRange j
  rw [hsplit] at hsorted hmem
  rcases List.mem_append.mp hmem with hbefore | hafter
  · exact hbefore
  · rcases List.mem_cons.mp hafter with rfl | hafter
    · exact absurd hj (lt_irrefl _)
    · have hlt := List.rel_of_pairwise_cons (List.pairwise_append.mp hsorted).2.1 hafter
      exact absurd hj (lt_asymm hlt)

namespace Project

/-- A search finds the start that follows from the chain of its entry, and leaves a sound table with
the marks as they were; or it fails as the chain does. The induction follows the search, which
carries the indices passed so far. -/
theorem startOf_outcome {path : List String} {i : Fin p.timeline.length}
    {table : StartTable T p.timeline.length} (hsound : table.Sound length) {first : ℕ}
    {passed : List ℕ} (htrail : table.Trail first passed i) (hpath : path = p.entryNames passed) :
    Outcome p p.startLink first i
      (fun r : T × StartTable T p.timeline.length => p.StartsAt length i r.1 ∧
        r.2.Sound length ∧ ∀ k, r.2.marked k = table.marked k)
      (p.startOf length path i table) := by
  fun_induction p.startOf length path i table generalizing passed with
  | case1 path i table start hstart => exact ⟨hsound i start hstart, hsound, fun _ => rfl⟩
  | case2 path i table hstart path' hmark =>
    have hnames : path' = p.entryNames (passed ++ [i.val]) := by
      rw [entryNames_concat (List.getElem?_eq_getElem i.isLt), ← hpath]
      rfl
    rw [hnames]
    exact Report.circle (htrail.lasso hmark)
  | case3 path i table hstart hmark hlink start =>
    have hstarts : p.StartsAt length i start := .stop hlink
    exact ⟨hstarts, (hsound.enter i).settle hstarts,
      marked_settle_of_enter hmark (fun _ => rfl) start⟩
  | case4 path i table hstart hmark name hlink => exact Report.missing (.missing hlink)
  | case5 path i table hstart path' hmark j hlink hunmarked ih =>
    have hnames : path' = p.entryNames (passed ++ [i.val]) := by
      rw [entryNames_concat (List.getElem?_eq_getElem i.isLt), ← hpath]
      rfl
    refine (ih (hsound.enter i) (htrail.enter hmark hlink) hnames).bind hlink fun r hr => ?_
    obtain ⟨hbase, hsound', hmarks⟩ := hr
    have hstarts := StartsAt.next hlink hbase
    exact ⟨hstarts, hsound'.settle hstarts, marked_settle_of_enter hmark hmarks _⟩

/-! ## All starts -/

/-- With an idle table, the span of an entry is found and the table is idle again, or the search
fails as the chain of the entry does. -/
theorem spanOf_cases {table : StartTable T p.timeline.length} (h : table.Idle length)
    (i : Fin p.timeline.length) :
    (∃ span table', p.spanOf length i table = .ok (span, table') ∧
      (p.StartsAt length i span.start ∧ span.duration = length i) ∧ table'.Idle length) ∨
      ∃ e, p.spanOf length i table = .error e ∧ Report p p.startLink i i e := by
  have hnames : [] = p.entryNames [] := rfl
  have houtcome := startOf_outcome h.sound (trail_nil h.unmarked i) hnames
  cases hsearch : p.startOf length [] i table with
  | ok r =>
    rw [hsearch] at houtcome
    obtain ⟨hstart, hsound, hmarks⟩ := houtcome
    refine Or.inl ⟨⟨r.1, length i⟩, r.2, ?_, ⟨hstart, rfl⟩, hsound, fun k => ?_⟩
    · simp only [spanOf, bind, StateT.bind, Except.bind, hsearch]
      rfl
    · rw [hmarks, h.unmarked k]
  | error e =>
    rw [hsearch] at houtcome
    refine Or.inr ⟨e, ?_, houtcome⟩
    simp [spanOf, bind, StateT.bind, Except.bind, hsearch]

/-- The search for all spans yields one span for each entry, with the start that follows from its
chain; or it fails as the chain of the first entry does that has no end. -/
theorem spans_cases (p : Project) (length : Fin p.timeline.length → Option T) :
    (∃ spans, p.spans length = .ok spans ∧
      List.Forall₂ (fun i span => p.StartsAt length i span.start ∧ span.duration = length i)
        (List.finRange p.timeline.length) spans) ∨
      ∃ (i : Fin p.timeline.length) (e : Error), p.spans length = .error e ∧
        (∀ j < i, Ends p.startLink j) ∧ Report p p.startLink i i e := by
  rcases mapM_state_cases (p.spanOf length) _ _ _ (fun i _ h => spanOf_cases h i)
    (List.finRange p.timeline.length) _ idle_empty with
    ⟨spans, table, hspans, hall, -⟩ | ⟨before, i, after, e, hsplit, hends, hreport, herror⟩
  · refine Or.inl ⟨spans, ?_, hall⟩
    rw [Project.spans, StateT.run', hspans]
    rfl
  · refine Or.inr ⟨i, e, ?_, fun j hj => ?_, hreport⟩
    · rw [Project.spans, StateT.run', herror]
      rfl
    · obtain ⟨span, hstart, -⟩ := hends j (mem_of_lt_of_finRange hsplit hj)
      exact hstart.ends

/-- Each span of a timeline has the start that follows from the chain of its entry. -/
theorem forall₂_of_spans {spans : List (Span T)} (h : p.spans length = .ok spans) :
    List.Forall₂ (fun i span => p.StartsAt length i span.start ∧ span.duration = length i)
      (List.finRange p.timeline.length) spans := by
  rcases p.spans_cases length with ⟨spans', hspans, hall⟩ | ⟨i, e, herror, -⟩
  · exact Except.ok.inj (hspans.symm.trans h) ▸ hall
  · simp [herror] at h

/-- There are spans exactly when every chain ends. -/
theorem exists_spans_iff (p : Project) (length : Fin p.timeline.length → Option T) :
    (∃ spans, p.spans length = .ok spans) ↔ ∀ i < p.timeline.length, Ends p.startLink i := by
  constructor
  · rintro ⟨spans, hspans⟩ i hi
    obtain ⟨hlength, hall⟩ := List.forall₂_iff_get.mp (forall₂_of_spans hspans)
    have hstart := (hall i (by simpa using hi) (by rw [← hlength]; simpa using hi)).1.ends
    simpa using hstart
  · intro hends
    rcases p.spans_cases length with ⟨spans, hspans, -⟩ | ⟨i, e, -, -, hreport⟩
    · exact ⟨spans, hspans⟩
    · exact absurd (hends i i.isLt) hreport.not_ends

/-- The search for spans fails as the chain of the first entry does that has no end. -/
theorem spans_eq_error_iff (p : Project) (length : Fin p.timeline.length → Option T) (e : Error) :
    p.spans length = .error e ↔ ∃ i < p.timeline.length, (∀ j < i, Ends p.startLink j) ∧
      Report p p.startLink i i e := by
  constructor
  · intro h
    rcases p.spans_cases length with ⟨spans, hspans, -⟩ | ⟨i, e', herror, hbefore, hreport⟩
    · simp [hspans] at h
    · obtain rfl := Except.error.inj (herror.symm.trans h)
      exact ⟨i, i.isLt, fun j hj => hbefore ⟨j, by omega⟩ hj, hreport⟩
  · rintro ⟨i, hi, hbefore, hreport⟩
    rcases p.spans_cases length with ⟨spans, hspans, -⟩ | ⟨k, e', herror, hbefore', hreport'⟩
    · have hends := (p.exists_spans_iff length).mp ⟨spans, hspans⟩ i hi
      exact absurd hends hreport.not_ends
    · -- Both indices are the first one whose chain does not end.
      have hik : ¬ i < k := fun hlt => hreport.not_ends (hbefore' ⟨i, hi⟩ hlt)
      have hki : ¬ k < i := fun hlt => hreport'.not_ends (hbefore k hlt)
      obtain rfl : k.val = i := by omega
      rw [herror, hreport.unique hreport']

/-- The check for circles fails exactly as the search for spans does, in any arithmetic and however
long entries last. -/
theorem checkAcyclic_eq (p : Project) (length : Fin p.timeline.length → Option T) :
    p.checkAcyclic = (p.spans length).map fun _ => () := by
  rw [checkAcyclic]
  cases hcheck : p.spans (fun _ => (none : Option Float)) with
  | ok spans =>
    have hends := (p.exists_spans_iff _).mp ⟨spans, hcheck⟩
    obtain ⟨spans', hspans⟩ := (p.exists_spans_iff length).mpr hends
    rw [hspans]
    rfl
  | error e =>
    have herror := (p.spans_eq_error_iff length e).mpr ((p.spans_eq_error_iff _ e).mp hcheck)
    rw [herror]
    rfl

/-- A timeline passes the check for circles exactly when every chain ends. -/
theorem checkAcyclic_eq_ok_iff (p : Project) :
    p.checkAcyclic = .ok () ↔ ∀ i < p.timeline.length, Ends p.startLink i := by
  rw [p.checkAcyclic_eq fun _ => (none : Option Float),
    ← p.exists_spans_iff fun _ => (none : Option Float)]
  cases p.spans (fun _ => (none : Option Float)) <;> simp [Except.map]

/-- The check for circles reports what is wrong with the first chain that has no end. -/
theorem checkAcyclic_eq_error_iff (p : Project) (e : Error) :
    p.checkAcyclic = .error e ↔ ∃ i < p.timeline.length, (∀ j < i, Ends p.startLink j) ∧
      Report p p.startLink i i e := by
  rw [p.checkAcyclic_eq fun _ => (none : Option Float),
    ← p.spans_eq_error_iff fun _ => (none : Option Float)]
  cases p.spans (fun _ => (none : Option Float)) <;> simp [Except.map]

/-! ## Timelines without a schedule -/

/-- On a timeline, a chain that does not end breaks or goes on for ever: the search along it, made
with the empty table, comes to an end in any case. -/
theorem ends_startLink_iff (p : Project) {i : ℕ} (hi : i < p.timeline.length) :
    Ends p.startLink i ↔ ¬ ((∃ name, Breaks p.startLink name i) ∨ Endless p.startLink i) := by
  constructor
  · rintro hends (⟨name, hbreaks⟩ | hendless)
    · exact hends.not_breaks name hbreaks
    · exact hends.not_endless hendless
  · intro hsound
    have hidle : (StartTable.empty p.timeline.length).Idle fun _ => (none : Option Float) :=
      idle_empty
    rcases spanOf_cases hidle ⟨i, hi⟩ with
      ⟨span, table, -, ⟨hstart, -⟩, -⟩ | ⟨e, -, hreport⟩
    · exact hstart.ends
    · exact absurd hreport.breaks_or_endless hsound

/-- What determines the start of an entry is the entry before it, or the first entry of the name
that it refers to, which may be missing; following it never leaves the timeline. There is no
schedule exactly when some entry is on a chain that comes to a missing name or never ends, and then
the first such entry tells the failure: the missing name, or the names along its chain up to and
including the first entry that is met again. The check for circles fails in the same way. -/
theorem schedule_fails_at_first_fault (p : Project) (known : KnownDurations T) (defaultText : T) :
    (∀ i j, p.startLink i = .next j ↔
      ∃ entry, p.timeline[i]? = some entry ∧ (entry.placement = .implicit ∧ i = j + 1 ∨
        ∃ target anchor offset, entry.placement = .relative target anchor offset ∧
          p.FirstNamed target j)) ∧
      (∀ i name, p.startLink i = .missing name ↔
        ∃ entry anchor offset, p.timeline[i]? = some entry ∧
          entry.placement = .relative name anchor offset ∧ ∀ e ∈ p.timeline, e.name ≠ name) ∧
      (∀ i j, p.startLink i = .next j → j < p.timeline.length) ∧
      ((∃ e, p.schedule known defaultText = .error e) ↔
        ∃ i < p.timeline.length, (∃ name, Breaks p.startLink name i) ∨ Endless p.startLink i) ∧
      (∀ e, p.schedule known defaultText = .error e ↔
        ∃ i < p.timeline.length,
          (∀ j < i, ¬ ((∃ name, Breaks p.startLink name j) ∨ Endless p.startLink j)) ∧
          ((∃ name, Breaks p.startLink name i ∧ e = .missingReference .placement name) ∨
            Endless p.startLink i ∧ ∃ passed again, Lasso p.startLink i passed again ∧
              e = .cyclicRelation (p.entryNames (passed ++ [again])))) ∧
      p.checkAcyclic = (p.schedule known defaultText).map fun _ => () := by
  refine ⟨fun i j => startLink_eq_next_iff, fun i name => startLink_eq_missing_iff,
    fun i j => startLink_lt, ?_, fun e => ?_, p.checkAcyclic_eq _⟩
  · constructor
    · rintro ⟨e, herror⟩
      obtain ⟨i, hi, -, hreport⟩ := (p.spans_eq_error_iff _ e).mp herror
      exact ⟨i, hi, hreport.breaks_or_endless⟩
    · rintro ⟨i, hi, hfault⟩
      cases hschedule : p.schedule known defaultText with
      | error e => exact ⟨e, rfl⟩
      | ok spans =>
        have hends := (p.exists_spans_iff _).mp ⟨spans, hschedule⟩ i hi
        exact absurd hfault ((p.ends_startLink_iff hi).mp hends)
  · rw [schedule, spans_eq_error_iff]
    refine exists_congr fun i => and_congr_right fun hi => ?_
    rw [report_iff]
    refine and_congr_left fun _ => forall₂_congr fun j hj => ?_
    exact p.ends_startLink_iff (hj.trans hi)

/-- A film in which an entry waits for the next one, which waits for the one after it, which starts
when the one before it ends. -/
def standoff : Project where
  outputName := "standoff"
  elements := [.text ⟨"line", "After you", []⟩]
  groups := []
  timeline :=
    [⟨"opening", "line", .implicit, none, none⟩,
      ⟨"first", "line", .relative "second" .start none, none, none⟩,
      ⟨"second", "line", .relative "third" .stop none, none, none⟩,
      ⟨"third", "line", .implicit, none, none⟩]

/-- The failure names the entry that waits first, and the two that wait for each other. -/
theorem standoff_schedule :
    standoff.schedule [] (5.0 : Float) =
        .error (.cyclicRelation ["first", "second", "third", "second"]) ∧
      standoff.checkAcyclic =
        .error (.cyclicRelation ["first", "second", "third", "second"]) := by
  have hlasso : Lasso standoff.startLink 1 [1, 2, 3] 2 :=
    ⟨rfl, by decide, by decide, by decide⟩
  have hopening : Ends standoff.startLink 0 := .stop rfl
  obtain ⟨-, -, -, -, herror, hcheck⟩ :=
    standoff.schedule_fails_at_first_fault [] (5.0 : Float)
  have hschedule : standoff.schedule [] (5.0 : Float) =
      .error (.cyclicRelation ["first", "second", "third", "second"]) := by
    rw [herror]
    refine ⟨1, by decide, fun j hj => ?_, Or.inr ⟨hlasso.endless, _, _, hlasso, by decide⟩⟩
    obtain rfl : j = 0 := by omega
    exact (standoff.ends_startLink_iff (by decide)).mp hopening
  exact ⟨hschedule, by rw [hcheck, hschedule]; rfl⟩

end Project

end Montage
