import Mathlib.Data.List.Basic
import Montage.Proofs.Composition
import Montage.Proofs.Equations
import Montage.Proofs.Scope

/-!
# Builds do not fail

A build that applies all rules publishes something for every project. Either a rule finds an error
and the document is published without a script, or the project resolves; then its script exists,
and so do its timeline records, however the measuring of its files turns out. Rules are not needed
for that: whatever resolves has a script and records, also where names are used twice.
-/

namespace Montage

namespace Project

/-- A usable project compiles to its resolution and a script. -/
theorem Usable.exists_compile {E : Type} [TextEffect E] {p : Project} (h : p.Usable)
    (settings : ScriptSettings) (effects : EffectRegistry E) :
    ∃ r script, p.ResolvesTo r ∧ p.compile settings effects = .ok (r, script) := by
  obtain ⟨r, hr⟩ := h.exists_resolvesTo
  obtain ⟨statements, -, hscript⟩ := hr.script_eq_render settings effects
  refine ⟨r, Script.render statements, hr, ?_⟩
  simp [compile, hr.resolve, hscript, bind, Except.bind, pure, Except.pure]

/-- A usable project resolves, and a build with all rules ends well for every project: it is an
action that only ever yields what is published. -/
theorem resolve_and_build_succeed (p : Project) :
    (p.Usable → ∃ r, p.resolve = .ok r) ∧
      ∀ (m : Type → Type) [Monad m] [LawfulMonad m] (E : Type) [TextEffect E] (b : Builder m E),
        b.rules = Rule.all → ∀ uri : String, ∃ publish : StateT (DurationCache Float) m Change,
          b.build uri p = Except.ok <$> publish := by
  refine ⟨fun h => ?_, fun m _ _ E _ b hrules uri => ?_⟩
  · obtain ⟨r, hr⟩ := h.exists_resolvesTo
    exact ⟨r, hr.resolve⟩
  · cases hfound : Diagnostic.anyError (p.diagnoseWith b.rules) with
    | true => exact ⟨pure (b.publish uri p "" []), by simp [Builder.build, hfound]⟩
    | false =>
      have h : p.Usable := by rwa [hrules] at hfound
      obtain ⟨r, script, hr, hcompile⟩ := h.exists_compile b.settings b.effects
      choose records hrecords using fun known =>
        hr.exists_records known b.settings.defaultTextDuration
      refine ⟨(fun known => b.publish uri p script (records known)) <$> b.knownDurations p, ?_⟩
      simp [Builder.build, hfound, hcompile, hrecords]

/-- The holiday film resolves, and is built although no file of it can be measured. -/
theorem holiday_resolve_and_build :
    holiday.Usable ∧ (∃ r, holiday.resolve = .ok r) ∧
      ∃ publish : StateT (DurationCache Float) Id Change,
        ({ effects := .standard
           measure := some fun path => pure (.error (.probeFailed path "no such file")) } :
          Builder Id LetterEffect).build "file:///holiday.json" holiday = Except.ok <$> publish :=
  ⟨holiday_usable, (resolve_and_build_succeed holiday).1 holiday_usable,
    (resolve_and_build_succeed holiday).2 Id _ _ rfl "file:///holiday.json"⟩

/-! ## What resolves is delivered -/

/-- Records show nothing of the options that elements have from their groups. -/
theorem make_mergeInto (p : Project) (i : ℕ) (layer : ℤ) (entry : Entry) (e : Element)
    (span : Span Float) :
    TimelineRecord.make i layer entry (p.mergeInto e) span = .make i layer entry e span := by
  cases e <;> rfl

/-- The record of an entry is made from its layer, its element and its span. -/
theorem ResolvesTo.exists_record {p : Project} {r : Resolved} (hr : p.ResolvesTo r)
    {known : KnownDurations Float} {defaultText : Float} {spans : List (Span Float)}
    {records : List TimelineRecord} (hspans : r.project.schedule known defaultText = .ok spans)
    (hrecords : r.records known defaultText = .ok records) {i : ℕ} {entry : Entry}
    (hentry : p.timeline[i]? = some entry) :
    ∃ layer element span, r.layers[i]? = some layer ∧ p.element? entry.element = some element ∧
      spans[i]? = some span ∧ records[i]? = some (.make i layer entry element span) := by
  obtain ⟨layer, hlayer, -⟩ := hr.exists_layerOf hentry
  obtain ⟨element, -, -, helement, hrequire⟩ := hr.shown entry (List.mem_of_getElem? hentry)
  rw [← hr.timeline] at hentry
  have hi : i < spans.length := by
    rw [length_of_schedule hspans]
    exact (List.getElem?_eq_some_iff.mp hentry).1
  have hspan := List.getElem?_eq_getElem hi
  obtain ⟨shown, hshown, hrecord⟩ := Resolved.getElem?_records hspans hrecords hentry hspan
  obtain rfl := Except.ok.inj (hrequire.symm.trans hshown)
  rw [make_mergeInto, Resolved.layer, hlayer, Option.getD_some] at hrecord
  exact ⟨layer, element, spans[i], hlayer, helement, hspan, hrecord⟩

/-- A project that resolves has a script with all settings and effects, also with effects that are
not built in, and records however long its files and texts are: one for each entry, in the order of
the timeline, each on the layer that was found for its entry. -/
theorem resolved_is_delivered {p : Project} {r : Resolved} (h : p.resolve = .ok r) :
    (∀ (E : Type) [TextEffect E] (settings : ScriptSettings) (effects : EffectRegistry E),
      ∃ script, r.script settings effects = .ok script) ∧
    ∀ (known : KnownDurations Float) (defaultText : Float), ∃ layers spans records,
      p.layers = .ok layers ∧ r.project.schedule known defaultText = .ok spans ∧
      r.records known defaultText = .ok records ∧ records.length = p.timeline.length ∧
      ∀ (i : ℕ) (entry : Entry), p.timeline[i]? = some entry → ∃ layer element span,
        layers[i]? = some layer ∧ p.element? entry.element = some element ∧
        spans[i]? = some span ∧ records[i]? = some (.make i layer entry element span) := by
  have hr := resolvesTo_of_resolve h
  obtain ⟨-, -, hlayers, -⟩ := resolve_eq_ok h
  constructor
  · intro E _ settings effects
    obtain ⟨statements, -, hscript⟩ := hr.script_eq_render settings effects
    exact ⟨_, hscript⟩
  · intro known defaultText
    obtain ⟨spans, hspans⟩ := hr.exists_schedule known defaultText
    obtain ⟨records, hrecords⟩ := hr.exists_records known defaultText
    have hlength := Resolved.length_records hspans hrecords
    rw [hr.timeline] at hlength
    exact ⟨r.layers, spans, records, hlayers, hspans, hrecords, hlength,
      fun i entry => hr.exists_record hspans hrecords⟩

/-- A film in which two elements have the same name and so have two entries. -/
def encore : Project where
  outputName := "encore"
  elements := [.text ⟨"song", "Once more", []⟩, .audio ⟨"song", "audio/song.mp3", []⟩]
  groups := []
  timeline :=
    [⟨"#1", "song", .implicit, none, none⟩,
      ⟨"#1", "song", .relative "#1" .stop none, none, none⟩,
      ⟨"#2", "song", .relative "#1" .stop none, none, some (.above "#1")⟩]

/-- Rules object to the film, but it resolves; so it has a script and three records, the last one on
a layer of its own. -/
theorem encore_is_delivered : ¬ encore.Usable ∧ ∃ r, encore.resolve = .ok r ∧
    (∀ (E : Type) [TextEffect E] (settings : ScriptSettings) (effects : EffectRegistry E),
      ∃ script, r.script settings effects = .ok script) ∧
    ∃ records, r.records [] 5.0 = .ok records ∧ records.length = 3 ∧
      ∃ record, records[2]? = some record ∧ record.name = "#2" ∧ record.layer = 1 := by
  have hresolve : encore.resolve = .ok ⟨encore, [0, 0, 1]⟩ := by decide +kernel
  obtain ⟨hscript, hrecords⟩ := resolved_is_delivered hresolve
  obtain ⟨layers, spans, records, hlayers, -, hshown, hlength, hmade⟩ := hrecords [] 5.0
  obtain rfl : layers = [0, 0, 1] :=
    Except.ok.inj (hlayers.symm.trans (resolve_eq_ok hresolve).2.2.1)
  obtain ⟨layer, element, span, hlayer, -, -, hrecord⟩ := hmade 2 _ rfl
  obtain rfl := Option.some.inj hlayer
  exact ⟨by decide +kernel, _, hresolve, hscript, records, hshown, hlength, _, hrecord, rfl, rfl⟩

end Project

end Montage
