import Mathlib.Algebra.Order.Field.Rat
import Montage.Proofs.Layout
import Montage.Proofs.Running

/-!
# Scripts keep to the schedule

The schedule computes starts along chains of entries, the script computes them from top to bottom
through the variables of earlier entries. Running the script shows that both agree: when the entry
at an index is assigned, the variables of all entries before it hold clips with the spans of the
schedule, and its own start is computed from one of them in the way in which the schedule does it.
-/

namespace Montage

open Script

variable {T : Type} [TimeScale T]

/-- Every file that the timeline shows was measured. -/
def Project.Measured (p : Project) (known : KnownDurations T) : Prop :=
  ∀ entry ∈ p.timeline, ∀ e, p.element? entry.element = some e →
    ∀ path, e.filePath? = some path → known.lookup path ≠ none

/-- A clip starts and ends as a span says. -/
def Clip.Follows (c : Clip T) (span : Span T) : Prop :=
  c.start = span.start ∧ c.stop? = some span.stop

/-- A clip of known length follows a span of the same start and length. -/
theorem Clip.follows_of_eq {c : Clip T} {span : Span T} (length : T)
    (hstart : c.start = span.start) (hc : c.duration = some length)
    (hspan : span.duration = some length) : c.Follows span := by
  refine ⟨hstart, ?_⟩
  simp [Clip.stop?, Span.stop, lengthOrZero, hc, hspan, hstart]

/-! ## Lengths -/

/-- Merging options keeps the length of a clip. -/
theorem Project.mergeInto_mediaLength? (p : Project) (known : KnownDurations T) (e : Element) :
    (p.mergeInto e).mediaLength? known = e.mediaLength? known := by
  cases e <;> rfl

/-- An entry lasts as long as its element, or as it says itself if it shows a text. -/
theorem Project.entryDuration_eq {p : Project} (known : KnownDurations T) (defaultText : T)
    {entry : Entry} {e : Element} (he : p.element? entry.element = some e) :
    p.entryDuration known defaultText entry =
      if e.isTextual then some ((entry.duration.map TimeScale.seconds).getD defaultText)
      else e.mediaLength? known := by
  unfold Project.entryDuration
  rw [he]
  cases e <;> rfl

/-- An entry of a measured timeline has a length. -/
theorem Project.Measured.mediaLength? {p : Project} {known : KnownDurations T}
    (h : p.Measured known) {entry : Entry} (hentry : entry ∈ p.timeline) {e : Element}
    (he : p.element? entry.element = some e) (htextual : e.isTextual = false) :
    ∃ length, e.mediaLength? known = some length := by
  cases e with
  | video v => exact Option.ne_none_iff_exists'.mp (h entry hentry _ he v.path rfl)
  | audio a => exact Option.ne_none_iff_exists'.mp (h entry hentry _ he a.path rfl)
  | videoExtract x => exact ⟨_, rfl⟩
  | audioExtract x => exact ⟨_, rfl⟩
  | text t => simp [Element.isTextual, Element.category] at htextual
  | subtitle t => simp [Element.isTextual, Element.category] at htextual

/-! ## Starts -/

/-- Moving a value by what is printed of an offset adds the offset. -/
theorem Reading.shifted_offset (reading : Reading T) (x : T) (offset : Option Offset) :
    reading.shifted x (offset.map fun o => (o.sign, TimeScale.seconds o.magnitude)) =
      x + (offset.map Offset.seconds).getD 0 := by
  rcases offset with _ | ⟨sign, magnitude⟩
  · exact (reading.add_zero x).symm
  · cases sign with
    | plus => exact congrArg (x + ·) (reading.literal_seconds magnitude)
    | minus =>
      exact (congrArg (x - ·) (reading.literal_seconds magnitude)).trans (reading.add_neg x _).symm

/-- The value of a reference to a clip that follows a span is what the schedule makes of the
span. -/
theorem value?_relative (reading : Reading T) {vars : Variables T} {clip : String} {c : Clip T}
    {base : Span T} (hc : vars clip = some c) (hbase : c.Follows base) (i : ℕ) (target : String)
    (anchor : Anchor) (offset : Option Offset) :
    StartExpression.value? reading vars
        (.relative clip anchor (offset.map fun o => (o.sign, TimeScale.seconds o.magnitude))) =
      some (Project.startFrom i (.relative target anchor offset) base) := by
  obtain ⟨hstart, hstop⟩ := hbase
  cases anchor <;>
    simp [StartExpression.value?, hc, hstart, hstop, reading.shifted_offset, Project.startFrom]

/-- The clips of the entries before an index follow their spans. -/
def PlacedBefore (p : Project) (spans : List (Span T)) (vars : Variables T) (i : ℕ) : Prop :=
  ∀ j < i, ∀ entry span, p.timeline[j]? = some entry → spans[j]? = some span →
    ∃ c, vars (entryVariable entry.name) = some c ∧ c.Follows span

/-- The script gives an entry the start that the schedule gives it, once the entries before it are
placed. -/
theorem start_eq_startFrom {p : Project} (h : p.Usable) (reading : Reading T)
    {spans : List (Span T)} {vars : Variables T} {i : ℕ} {entry : Entry}
    (hentry : p.timeline[i]? = some entry) (hplaced : PlacedBefore p spans vars i) {base : Span T}
    (hbase : ∀ j < p.timeline.length, p.startLink i = .next j → spans[j]? = some base) :
    (match startExpression? p.timeline i entry.placement with
      | none => some 0
      | some e => e.value? reading vars) = some (Project.startFrom i entry.placement base) := by
  obtain ⟨hi, -⟩ := List.getElem?_eq_some_iff.mp hentry
  cases hplacement : entry.placement with
  | fixed instant => exact congrArg some (reading.literal_seconds instant)
  | implicit =>
    by_cases hzero : i = 0
    · simp [startExpression?, Project.startFrom, hzero]
    · have hlt : i - 1 < p.timeline.length := by omega
      have hlink : p.startLink i = .next (i - 1) := by
        simp [Project.startLink, hentry, hplacement, hzero]
      have hprevious : p.timeline[i - 1]? = some p.timeline[i - 1] := List.getElem?_eq_getElem hlt
      obtain ⟨c, hc, -, hstop⟩ := hplaced (i - 1) (by omega) _ base hprevious (hbase _ hlt hlink)
      simp [startExpression?, Project.startFrom, hzero, hprevious, StartExpression.value?, hc,
        hstop, Reading.shifted]
  | relative target anchor offset =>
    obtain ⟨j, hj, before, hlink, hbefore, rfl⟩ := h.relative_before hentry hplacement
    obtain ⟨c, hc, hfollows⟩ := hplaced j hj before base hbefore (hbase j (by omega) hlink)
    exact value?_relative reading hc hfollows i before.name anchor offset

/-- The clip that an entry is assigned follows its span, once the entries before it are placed. -/
theorem exists_clip?_entryStatement {p : Project} (h : p.Usable) (reading : Reading T)
    {known : KnownDurations T} (hmeasured : p.Measured known) {defaultText : Float}
    {spans : List (Span T)} (hspans : p.schedule known (reading.literal defaultText) = .ok spans)
    {vars : Variables T} {i : ℕ} {entry : Entry} (hentry : p.timeline[i]? = some entry)
    {e : Element} (he : p.element? entry.element = some e)
    (hheld : (p.mergeInto e).Held known vars) (hplaced : PlacedBefore p spans vars i)
    {span : Span T} (hspan : spans[i]? = some span) :
    ∃ c, (entryStatement p.timeline defaultText i entry (p.mergeInto e)).clip? reading vars =
      some c ∧ c.Follows span := by
  obtain ⟨base, hequation, hbase⟩ := Project.span_equation hspans hentry
  obtain rfl := Option.some.inj (hequation.symm.trans hspan)
  obtain ⟨c, hc, hzero, hduration⟩ := hheld
  have hstart := start_eq_startFrom h reading hentry hplaced hbase
  have htextual : (p.mergeInto e).isTextual = e.isTextual := by simp [Element.isTextual]
  rw [Project.entryDuration_eq known _ he]
  rw [Project.mergeInto_name] at hc
  rw [Project.mergeInto_mediaLength?, htextual] at hduration
  have hclip : (entryStatement p.timeline defaultText i entry (p.mergeInto e)).clip? reading vars =
      some ⟨Project.startFrom i entry.placement base,
        (((if e.isTextual then some ((entry.duration.map TimeScale.seconds).getD defaultText)
          else none) : Option Float).map reading.literal).or c.duration⟩ := by
    cases hexpression : startExpression? (T := Float) p.timeline i entry.placement with
    | none =>
      simp only [hexpression, Option.some.injEq] at hstart
      simp [EntryStatement.clip?, entryStatement, hc, htextual, hexpression, hzero, hstart]
    | some expression =>
      simp only [hexpression] at hstart
      simp [EntryStatement.clip?, entryStatement, hc, htextual, hexpression, hstart]
  refine ⟨_, hclip, ?_⟩
  cases hcase : e.isTextual with
  | true =>
    refine Clip.follows_of_eq
      ((entry.duration.map TimeScale.seconds).getD (reading.literal defaultText)) rfl ?_ rfl
    cases entry.duration with
    | none => rfl
    | some t => exact congrArg some (reading.literal_seconds t)
  | false =>
    obtain ⟨length, hlength⟩ :=
      hmeasured.mediaLength? (List.mem_of_getElem? hentry) he hcase
    refine Clip.follows_of_eq length rfl ?_ hlength
    rw [← hlength, ← hduration hcase]
    rfl

/-! ## Runs -/

/-- Placing the next entry leaves the clips of elements and of earlier entries alone. -/
theorem placedBefore_succ {p : Project} (hnames : p.SoundNames) {spans : List (Span T)}
    {vars : Variables T} {i : ℕ} (hplaced : PlacedBefore p spans vars i) {entry : Entry}
    (hentry : p.timeline[i]? = some entry) {span : Span T} (hspan : spans[i]? = some span)
    {c : Clip T} (hc : c.Follows span) :
    PlacedBefore p spans (Function.update vars (entryVariable entry.name) (some c)) (i + 1) := by
  intro j hj entry' span' hentry' hspan'
  by_cases hji : j = i
  · subst hji
    obtain rfl := Option.some.inj (hentry.symm.trans hentry')
    obtain rfl := Option.some.inj (hspan.symm.trans hspan')
    exact ⟨c, Function.update_self .., hc⟩
  · have hne : entryVariable entry'.name ≠ entryVariable entry.name :=
      fun heq => hji (hnames.entryVariable_inj hentry' hentry heq)
    obtain ⟨c', hc', hfollows⟩ := hplaced j (by omega) entry' span' hentry' hspan'
    exact ⟨c', by rw [Function.update_of_ne hne, hc'], hfollows⟩

/-- The assignments of the entries run and place all entries as scheduled. The induction is on the
assignments still to come. -/
theorem exists_runAll_entries {p : Project} {r : Resolved} (hr : p.ResolvesTo r) (h : p.Usable)
    (reading : Reading T) {known : KnownDurations T} (hmeasured : p.Measured known)
    {defaultText : Float} {spans : List (Span T)}
    (hspans : p.schedule known (reading.literal defaultText) = .ok spans)
    {entries : List (EntryStatement Float)} (hentries : r.entryStatements defaultText = .ok entries)
    (before after : List (EntryStatement Float)) (hsplit : entries = before ++ after)
    (vars : Variables T) (hheld : ∀ e ∈ p.elements, (p.mergeInto e).Held known vars)
    (hplaced : PlacedBefore p spans vars before.length) :
    ∃ vars', runAll reading known (after.map .entry) vars = some vars' ∧
      PlacedBefore p spans vars' p.timeline.length := by
  induction after generalizing before vars with
  | nil =>
    refine ⟨vars, rfl, ?_⟩
    rwa [← hr.length_entryStatements hentries, hsplit, List.append_nil]
  | cons s rest ih =>
    have hs : entries[before.length]? = some s := by simp [hsplit]
    obtain ⟨entry, e, hentry, he, hfound, rfl⟩ := hr.getElem?_entryStatements hentries hs
    obtain ⟨hi, -⟩ := List.getElem?_eq_some_iff.mp hentry
    rw [← Project.length_of_schedule hspans] at hi
    have hspan : spans[before.length]? = some spans[before.length] := List.getElem?_eq_getElem hi
    obtain ⟨c, hc, hfollows⟩ := exists_clip?_entryStatement h reading hmeasured hspans hentry
      hfound (hheld e he) hplaced hspan
    have hheld' : ∀ e ∈ p.elements, (p.mergeInto e).Held known
        (Function.update vars (entryVariable entry.name) (some c)) := by
      intro x hx
      refine (hheld x hx).congr (Function.update_of_ne ?_ _ _)
      rw [Project.mergeInto_name]
      exact (h.names.entryVariable_ne entry.name hx).symm
    have hplaced' := placedBefore_succ h.names hplaced hentry hspan hfollows
    obtain ⟨vars', hrun, hall⟩ := ih (before ++ [entryStatement p.timeline defaultText
      before.length entry (p.mergeInto e)]) (by simp [hsplit]) _ hheld'
        (by rwa [List.length_append, List.length_singleton])
    refine ⟨vars', ?_, hall⟩
    have hstep : (Statement.entry (entryStatement p.timeline defaultText before.length entry
        (p.mergeInto e))).run? reading known vars =
          some (Function.update vars (entryVariable entry.name) (some c)) := by
      rw [Statement.run?, hc, Option.map_some]
      rfl
    rw [List.map_cons, runAll_cons, hstep, Option.bind_some, hrun]

/-- The statements of a usable project run, and the clip that is then held for each entry follows
its span. -/
theorem Project.ResolvesTo.exists_runAll_statements {p : Project} {r : Resolved}
    (hr : p.ResolvesTo r) (h : p.Usable) (reading : Reading T) (settings : ScriptSettings)
    (effects : EffectRegistry LetterEffect) {known : KnownDurations T}
    (hmeasured : p.Measured known) :
    ∃ statements spans vars, r.statements settings effects = .ok statements ∧
      p.schedule known (reading.literal settings.defaultTextDuration) = .ok spans ∧
      runAll reading known statements (fun _ => none) = some vars ∧
      PlacedBefore p spans vars p.timeline.length := by
  obtain ⟨entries, layered, hentries, -, hstatements⟩ := hr.exists_statements settings effects
  obtain ⟨spans, hspans⟩ := p.exists_schedule known
    (reading.literal settings.defaultTextDuration) h.startLink_ends
  -- The prologue, the clips, the entries and the composition run one after another.
  obtain ⟨prologue, hprologue⟩ := exists_runAll_of_assigned?_eq_none reading known
    [.importLibrary, .blank] (by simp [Statement.assigned?]) (fun _ => none)
  obtain ⟨clips, hclips, hheld⟩ :=
    hr.exists_runAll_clipStatements h reading known settings effects prologue
  obtain ⟨placed, hplaced, hall⟩ := exists_runAll_entries hr h reading hmeasured hspans hentries
    [] entries rfl clips (fun e he => hheld _ (by rw [hr.elements]; exact List.mem_map_of_mem he))
    (by simp [PlacedBefore])
  have hcomposition : ∀ s ∈ .blank ::
      compositionStatements r.project.outputName settings.canvas layered, s.assigned? = none :=
    List.forall_mem_cons.mpr ⟨rfl, fun s hs => assigned?_of_mem_compositionStatements hs⟩
  obtain ⟨vars, hvars⟩ :=
    exists_runAll_of_assigned?_eq_none reading known _ hcomposition placed
  refine ⟨_, spans, vars, hstatements, hspans, ?_, ?_⟩
  · rw [List.append_assoc, List.append_assoc, List.append_assoc, runAll_append, hprologue,
      Option.bind_some, runAll_append, hclips, Option.bind_some, runAll_append, hplaced,
      Option.bind_some, List.singleton_append, hvars]
  · intro i hi entry span hentry hspan
    obtain ⟨c, hc, hfollows⟩ := hall i hi entry span hentry hspan
    refine ⟨c, ?_, hfollows⟩
    rw [runAll_of_not_mem reading known hvars (by simp [Statement.assigned?])
      (entryVariable_not_mem_ownNames _), hc]

/-- When the script of a usable project is run from its text, whatever its settings and effects are
and whatever its conditions come out as, the clip that is held for each entry at the end starts and
ends when the schedule says. -/
theorem Project.script_keeps_schedule (reading : Reading T) {p : Project} (h : p.Usable)
    (settings : ScriptSettings) (effects : EffectRegistry LetterEffect) {known : KnownDurations T}
    (hmeasured : p.Measured known) (answers : ℕ → Bool) :
    ∃ r script spans, p.resolve = .ok r ∧ r.script settings effects = .ok script ∧
      p.schedule known (reading.literal settings.defaultTextDuration) = .ok spans ∧
      ∀ (i : ℕ) (entry : Entry), p.timeline[i]? = some entry → ∃ clip span,
        runScript reading known answers script (entryVariable entry.name) = some clip ∧
        spans[i]? = some span ∧ clip.start = span.start ∧ clip.stop? = some span.stop := by
  obtain ⟨r, hr⟩ := h.exists_resolvesTo
  obtain ⟨statements, spans, vars, hstatements, hspans, hrun, hplaced⟩ :=
    hr.exists_runAll_statements h reading settings effects hmeasured
  have hdiscreet := hr.discreet_statements h hstatements
  have hwellFormed := hr.wellFormed_statements h hstatements
  have hsubset := (written_sublist [] statements).subset
  have hquiet : Quiet (fun _ => none : Variables T) := fun _ _ _ _ => rfl
  have hscript : runScript reading known answers (textOf (written [] statements)) = vars := by
    rw [runScript, codeOf_textOf fun s hs => hwellFormed s (hsubset hs)]
    exact hquiet.foldl_executed (fun s hs => hdiscreet s (hsubset hs))
      (hquiet.runAll_written hdiscreet hrun []) answers { }
  refine ⟨r, textOf (written [] statements), spans, hr.resolve, ?_, hspans, ?_⟩
  · rw [Resolved.script, hstatements, ← render_eq_textOf]
    rfl
  · intro i entry hentry
    obtain ⟨hi, -⟩ := List.getElem?_eq_some_iff.mp hentry
    have hspan := List.getElem?_eq_getElem (Project.length_of_schedule hspans ▸ hi)
    obtain ⟨c, hc, hstart, hstop⟩ := hplaced i hi entry _ hentry hspan
    exact ⟨c, _, by rw [hscript, hc], hspan, hstart, hstop⟩

/-! ## Exact arithmetic -/

/-- The number that some digits denote. -/
def digitsValue (digits : List Char) : ℚ :=
  digits.foldl (fun n d => 10 * n + (d.toNat - '0'.toNat : ℕ)) 0

/-- The value of a decimal fraction. -/
def decimalValue (digits : List Char) : ℚ :=
  let fraction := (digits.dropWhile (· ≠ '.')).tail
  digitsValue (digits.takeWhile (· ≠ '.')) + digitsValue fraction / 10 ^ fraction.length

/-- The value of a number in the text of a script. A number that is not finite has no value; it
counts as zero. -/
def exactValue : List Token → ℚ
  | [.number digits] => decimalValue digits.toList
  | [.mark '-', .number digits] => -decimalValue digits.toList
  | _ => 0

instance : TimeScale ℚ where
  seconds t := exactValue (numberTokens t.toFloat)

/-- Scripts are read in exact arithmetic: numbers are the decimal fractions that they are printed
as, and no sum of them is rounded. -/
def exactReading : Reading ℚ where
  literal x := exactValue (numberTokens x)
  number ts := some (exactValue ts)
  number_literal _ := rfl
  literal_seconds _ := rfl
  add_zero := add_zero
  add_neg x y := (sub_eq_add_neg x y).symm

/-- The measured lengths of the files of the holiday film. -/
def holidayLengths : KnownDurations ℚ :=
  [("clips/beach.mp4", 12), ("audio/theme.mp3", 361 / 2)]

/-- In exact arithmetic, the script of the holiday film keeps to its schedule. -/
theorem Project.holiday_script_keeps_schedule :
    holiday.Usable ∧ holiday.Measured holidayLengths ∧
      ∃ r script spans, holiday.resolve = .ok r ∧ r.script { } .standard = .ok script ∧
        holiday.schedule holidayLengths (exactReading.literal 5.0) = .ok spans ∧
        ∀ (i : ℕ) (entry : Entry), holiday.timeline[i]? = some entry → ∃ clip span,
          runScript exactReading holidayLengths (fun _ => false) script
            (entryVariable entry.name) = some clip ∧
          spans[i]? = some span ∧ clip.start = span.start ∧ clip.stop? = some span.stop := by
  have hfiles : ∀ entry ∈ holiday.timeline,
      ((holiday.element? entry.element).bind Element.filePath?).all
        (fun path => (holidayLengths.lookup path).isSome) = true := by decide +kernel
  have hmeasured : holiday.Measured holidayLengths := by
    intro entry hentry e he path hpath
    have hfile := hfiles entry hentry
    rw [he, Option.bind_some, hpath, Option.all_some] at hfile
    exact Option.isSome_iff_ne_none.mp hfile
  exact ⟨holiday_usable, hmeasured,
    script_keeps_schedule exactReading holiday_usable { } .standard hmeasured _⟩

end Montage
