import Montage.Proofs.Groups
import Montage.Proofs.Layout

/-!
# The wording of a project

The texts of a film, its fonts and colours, the paths of its files and its own name are words that
can be chosen freely. A project without its words resolves like the project, and its script has the
same statements except for words. Each word is a literal within a line, so two projects that differ
in words only have scripts with the same number of lines and the same indentation of each.
-/

namespace Montage

open Script

/-! ## Leaving out words -/

/-- A text option without its word. -/
def TextOption.unworded : TextOption → TextOption
  | font _ => font ""
  | fontColor _ => fontColor ""
  | background _ => background ""
  | o => o

/-- A text without its words. -/
def TextBlock.unworded (t : TextBlock) : TextBlock :=
  { t with text := "", options := t.options.map TextOption.unworded }

/-- An element without its words. Its name is none of them. -/
def Element.unworded : Element → Element
  | video v => video { v with path := "" }
  | audio a => audio { a with path := "" }
  | text t => text t.unworded
  | subtitle t => subtitle t.unworded
  | e => e

/-- A group of text options without their words. -/
def Group.unworded (g : Group TextOption) : Group TextOption :=
  { g with options := g.options.map TextOption.unworded }

/-- A group without its words. -/
def OptionGroup.unworded : OptionGroup → OptionGroup
  | text g => text g.unworded
  | g => g

/-- A project without its words. -/
def Project.unworded (p : Project) : Project where
  outputName := ""
  elements := p.elements.map Element.unworded
  groups := p.groups.map OptionGroup.unworded
  timeline := p.timeline

/-- A resolved project without its words. -/
def Resolved.unworded (r : Resolved) : Resolved :=
  { r with project := r.project.unworded }

/-- Settings without their words. -/
def ScriptSettings.unworded (s : ScriptSettings) : ScriptSettings :=
  { s with defaultFont := "", defaultFontColor := "" }

namespace Script

/-- What a text clip is made from, without words. A background stays one. -/
def TextArguments.unworded (a : TextArguments) : TextArguments :=
  { a with text := "", background := a.background.map fun _ => "", font := "", color := "" }

/-- A statement without its words. -/
def Statement.unworded : Statement LetterEffect → Statement LetterEffect
  | loadVideo clip _ => loadVideo clip ""
  | loadAudio clip _ => loadAudio clip ""
  | textClip clip arguments position => textClip clip arguments.unworded position
  | exportFilm _ => exportFilm ""
  | s => s

end Script

/-! ## Resolution -/

namespace Element

variable (e : Element)

/-! Names, categories and sources are no words. -/

@[simp] theorem name_unworded : e.unworded.name = e.name := by cases e <;> rfl

@[simp] theorem category_unworded : e.unworded.category = e.category := by cases e <;> rfl

@[simp] theorem source?_unworded : e.unworded.source? = e.source? := by cases e <;> rfl

@[simp] theorem isSubtitle_unworded : e.unworded.isSubtitle = e.isSubtitle := by cases e <;> rfl

@[simp] theorem isTextual_unworded : e.unworded.isTextual = e.isTextual := by simp [isTextual]

@[simp] theorem isVisual_unworded : e.unworded.isVisual = e.isVisual := by simp [isVisual]

/-- Only the words of a text change. -/
theorem textBlock?_unworded : e.unworded.textBlock? = e.textBlock?.map TextBlock.unworded := by
  cases e <;> rfl

end Element

namespace Project

variable (p : Project)

/-- Groups of videos have no words. -/
theorem videoGroupsOf_unworded : p.unworded.videoGroupsOf = p.videoGroupsOf := by
  have hvideo : OptionGroup.video? ∘ OptionGroup.unworded = OptionGroup.video? := by
    funext g
    cases g <;> rfl
  funext element
  simp only [videoGroupsOf, unworded, List.filterMap_map, hvideo]

/-- Groups of sounds have no words. -/
theorem audioGroupsOf_unworded : p.unworded.audioGroupsOf = p.audioGroupsOf := by
  have haudio : OptionGroup.audio? ∘ OptionGroup.unworded = OptionGroup.audio? := by
    funext g
    cases g <;> rfl
  funext element
  simp only [audioGroupsOf, unworded, List.filterMap_map, haudio]

/-- Groups of texts are for the same elements without their words. -/
theorem textGroupsOf_unworded (element : String) :
    p.unworded.textGroupsOf element = (p.textGroupsOf element).map Group.unworded := by
  have htext : OptionGroup.text? ∘ OptionGroup.unworded =
      fun g => (OptionGroup.text? g).map Group.unworded := by
    funext g
    cases g <;> rfl
  have happlies : (fun g : Group TextOption => g.appliesTo element) ∘ Group.unworded =
      fun g => g.appliesTo element := rfl
  simp only [textGroupsOf, unworded, List.filterMap_map, htext, ← List.map_filterMap,
    List.filter_map, happlies]

/-- Words can be left out before or after options are merged. -/
theorem mergeInto_unworded (e : Element) :
    p.unworded.mergeInto e.unworded = (p.mergeInto e).unworded := by
  have hmerge (own shared : List TextOption) :
      mergeOptions (own.map TextOption.unworded) (shared.map TextOption.unworded) =
        (mergeOptions own shared).map TextOption.unworded :=
    mergeOptions_map (fun o => by cases o <;> rfl) (fun o => by cases o <;> rfl) own shared
  have hshared (groups : List (Group TextOption)) :
      (groups.map Group.unworded).flatMap (·.options) =
        (groups.flatMap (·.options)).map TextOption.unworded := by
    rw [List.flatMap_map, List.map_flatMap]
    rfl
  cases e <;>
    simp only [mergeInto, Element.unworded, TextBlock.unworded, videoGroupsOf_unworded,
      audioGroupsOf_unworded, textGroupsOf_unworded, hshared, hmerge]

/-- Leaving out words keeps all references. -/
theorem sameReferences_unworded : p.SameReferences p.unworded where
  elements := by simp [unworded, Function.comp_def]
  timeline := rfl

/-- A project without its words resolves like the project. -/
theorem resolve_unworded : p.unworded.resolve = p.resolve.map Resolved.unworded := by
  have hmerged : p.unworded.mergedElements = p.mergedElements.map Element.unworded := by
    simp [mergedElements, unworded, Function.comp_def, ← mergeInto_unworded]
  rw [p.sameReferences_unworded.resolve, hmerged]
  cases hresolve : p.resolve with
  | error e => rfl
  | ok r =>
    obtain ⟨-, -, -, hproject⟩ := resolve_eq_ok hresolve
    simp only [Except.map, Resolved.unworded, hproject]
    rfl

/-- Elements are found by name with or without words. -/
theorem element?_unworded (name : String) :
    p.unworded.element? name = (p.element? name).map Element.unworded := by
  rw [element?, element?, unworded, List.find?_map]
  simp only [Function.comp_def, Element.name_unworded]

/-- The frame of an element does not depend on words. -/
theorem frameWithin_unworded (steps : ℕ) (e : Element) :
    p.unworded.frameWithin steps e.unworded = p.frameWithin steps e := by
  induction steps generalizing e with
  | zero => rfl
  | succ steps ih =>
    cases e with
    | videoExtract x =>
      simp only [Element.unworded, frameWithin, element?_unworded]
      cases p.element? x.source with
      | none => rfl
      | some source => exact ih source
    | _ => rfl

end Project

/-! ## Statements -/

namespace Script

section Words

variable (p : Project) (settings : ScriptSettings) (effects : EffectRegistry LetterEffect)

/-- Whether a statement is written only once does not depend on words. -/
theorem Statement.onceKey?_unworded (s : Statement LetterEffect) :
    s.unworded.onceKey? = s.onceKey? := by
  cases s <;> rfl

/-- Whether a statement is well-formed does not depend on words. -/
theorem Statement.wellFormed_unworded (s : Statement LetterEffect) :
    s.unworded.WellFormed ↔ s.WellFormed := by
  cases s <;> rfl

/-- The clip of a video has the same statements except for words. -/
theorem videoStatements_unworded (canvas : Canvas) (e : Element) :
    (videoStatements p.unworded canvas e.unworded).map Statement.unworded =
      (videoStatements p canvas e).map Statement.unworded := by
  have hframe : p.unworded.frameOf e.unworded = p.frameOf e := by
    have hlength : p.unworded.elements.length = p.elements.length := List.length_map ..
    rw [Project.frameOf, Project.frameOf, hlength, p.frameWithin_unworded]
  have hfinish (options : List VideoOption) :
      finishVideo (E := LetterEffect) p.unworded canvas e.unworded options =
        finishVideo p canvas e options := by
    rw [finishVideo, finishVideo, hframe, e.name_unworded]
  cases e with
  | video v =>
    simp only [Element.unworded, videoStatements] at hfinish ⊢
    rw [hfinish]
    rfl
  | videoExtract x =>
    simp only [Element.unworded, videoStatements] at hfinish ⊢
    rw [hfinish]
  | _ => rfl

/-- The clip of a sound has the same statements except for words. -/
theorem audioStatements_unworded (e : Element) :
    (audioStatements e.unworded).map Statement.unworded =
      (audioStatements e).map Statement.unworded := by
  cases e <;> rfl

/-- The last value of a setting, when leaving out words changes every value of it. -/
theorem lastValue_map {k : TextOption.Kind} {f : k.Value → k.Value}
    (h : ∀ o : TextOption, o.unworded.value? k = (o.value? k).map f) (options : List TextOption) :
    lastValue k (options.map TextOption.unworded) = (lastValue k options).map f := by
  rw [lastValue, lastValue, List.filterMap_map, ← List.getLast?_map, List.map_filterMap]
  congr 2
  funext o
  exact h o

/-- Options keep the values that are no words. -/
theorem lastValue_unworded {k : TextOption.Kind}
    (h : ∀ o : TextOption, o.unworded.value? k = o.value? k) (options : List TextOption) :
    lastValue k (options.map TextOption.unworded) = lastValue k options := by
  rw [lastValue_map (f := id) (by simpa using h), Option.map_id_fun, id]

/-- The clip of a text has the same statements except for words. -/
theorem textStatements_unworded (duration : Float) (e : Element) :
    (textStatements settings.unworded effects duration e.unworded).map Statement.unworded =
      (textStatements settings effects duration e).map Statement.unworded := by
  unfold textStatements
  rw [e.textBlock?_unworded]
  cases e.textBlock? with
  | none => rfl
  | some t =>
    have hsize : textSize settings.unworded t.unworded.options = textSize settings t.options := by
      unfold textSize
      rw [TextBlock.unworded, lastValue_unworded fun o => by cases o <;> rfl]
      rfl
    have hposition : textPosition settings.unworded e.unworded t.unworded.options =
        textPosition settings e t.options := by
      unfold textPosition
      rw [hsize, e.isSubtitle_unworded, TextBlock.unworded,
        lastValue_unworded fun o => by cases o <;> rfl]
      rfl
    have heffect : chosenEffect? effects t.unworded.options = chosenEffect? effects t.options := by
      unfold chosenEffect?
      rw [TextBlock.unworded, lastValue_unworded fun o => by cases o <;> rfl]
    have harguments : (textArguments settings.unworded t.unworded).unworded =
        (textArguments settings t).unworded := by
      have hbackground : (lastValue .background t.unworded.options).map (fun _ => "") =
          (lastValue .background t.options).map fun _ => "" := by
        rw [TextBlock.unworded, lastValue_map (f := fun _ => "") fun o => by cases o <;> rfl,
          Option.map_map]
        rfl
      have hfontSize : lastValue .fontSize t.unworded.options = lastValue .fontSize t.options :=
        lastValue_unworded (fun o => by cases o <;> rfl) _
      have halignment : lastValue .alignment t.unworded.options = lastValue .alignment t.options :=
        lastValue_unworded (fun o => by cases o <;> rfl) _
      simp only [textArguments, TextArguments.unworded, hbackground, hfontSize, halignment, hsize]
      rfl
    simp only [Option.map_some, hposition, heffect, e.isSubtitle_unworded, List.map_append,
      List.map_cons, Statement.unworded, harguments]
    rfl

/-- The composition has the same statements except for words. -/
theorem compositionStatements_unworded (name name' : String) (canvas : Canvas)
    (entries : List (Entry × Element)) :
    (compositionStatements name' canvas (entries.map fun x => (x.1, x.2.unworded))).map
        Statement.unworded =
      (compositionStatements name canvas entries).map Statement.unworded := by
  have hvisual : visualClips (entries.map fun x => (x.1, x.2.unworded)) = visualClips entries := by
    simp [visualClips, List.filterMap_map]
  have haudible : audibleTracks (entries.map fun x => (x.1, x.2.unworded)) =
      audibleTracks entries := by
    simp [audibleTracks, List.filterMap_map]
  have hsound : hasSound (entries.map fun x => (x.1, x.2.unworded)) = hasSound entries := by
    simp [hasSound, Function.comp_def]
  simp only [compositionStatements, hvisual, haudible, hsound, List.map_append]
  rfl

end Words

end Script

namespace Resolved

variable (r : Resolved) (settings : ScriptSettings) (effects : EffectRegistry LetterEffect)

/-- The element of an entry is found with or without words. -/
theorem requireElement_unworded (entry : Entry) :
    r.unworded.requireElement entry = (r.requireElement entry).map Element.unworded := by
  have helement : r.unworded.elementOf entry = (r.elementOf entry).map Element.unworded :=
    r.project.element?_unworded entry.element
  rw [requireElement, requireElement, helement]
  cases r.elementOf entry <;> rfl

/-- Entries are put on the timeline by the same statements. -/
theorem entryStatements_unworded (defaultText : Float) :
    r.unworded.entryStatements defaultText = r.entryStatements defaultText := by
  have hstatement (i : ℕ) (entry : Entry) (e : Element) :
      entryStatement r.project.timeline defaultText i entry e.unworded =
        entryStatement r.project.timeline defaultText i entry e := by
    simp [entryStatement]
  have htimeline : r.unworded.project.timeline = r.project.timeline := rfl
  rw [entryStatements, entryStatements, htimeline]
  congr 1
  funext x
  rw [r.requireElement_unworded]
  cases r.requireElement x.1 with
  | error e => rfl
  | ok e => exact congrArg Except.ok (hstatement x.2 x.1 e)

/-- The entries are in the same layers. -/
theorem layered_unworded :
    r.unworded.layered = r.layered.map (List.map fun x => (x.1, x.2.unworded)) := by
  have hlayers : r.unworded.byLayer = r.byLayer := rfl
  rw [layered, layered, hlayers, ← mapM_map]
  congr 1
  funext entry
  rw [r.requireElement_unworded]
  cases r.requireElement entry <;> rfl

/-- All clips have the same statements except for words. -/
theorem clipStatements_unworded :
    (r.unworded.clipStatements settings.unworded effects).map Statement.unworded =
      (r.clipStatements settings effects).map Statement.unworded := by
  have hpass (keep : Element → Bool) {f f' : Element → List (Statement LetterEffect)}
      (hkeep : ∀ e, keep e.unworded = keep e)
      (hstep : ∀ e, (f' e.unworded).map Statement.unworded = (f e).map Statement.unworded) :
      ((r.unworded.project.elements.filter keep).flatMap f').map Statement.unworded =
        ((r.project.elements.filter keep).flatMap f).map Statement.unworded := by
    have hfilter : r.unworded.project.elements.filter keep =
        (r.project.elements.filter keep).map Element.unworded := by
      rw [Resolved.unworded, Project.unworded, List.filter_map]
      simp only [Function.comp_def, hkeep]
    simp only [hfilter, List.flatMap_map, List.map_flatMap, hstep]
  have hduration (name : String) : r.unworded.animationDuration settings.unworded name =
      r.animationDuration settings name := rfl
  simp only [clipStatements, List.map_append]
  congr 1
  · congr 1
    · exact hpass _ (fun e => by simp) (videoStatements_unworded r.project settings.canvas)
    · refine hpass _ Element.isTextual_unworded fun e => ?_
      rw [hduration, e.name_unworded]
      exact textStatements_unworded settings effects _ e
  · exact hpass _ (fun e => by simp) audioStatements_unworded

/-- A project without words has the statements of the project except for words. -/
theorem statements_unworded :
    (r.unworded.statements settings.unworded effects).map (List.map Statement.unworded) =
      (r.statements settings effects).map (List.map Statement.unworded) := by
  have hduration : settings.unworded.defaultTextDuration = settings.defaultTextDuration := rfl
  rw [statements, statements, hduration, entryStatements_unworded, layered_unworded]
  cases r.entryStatements settings.defaultTextDuration with
  | error e => rfl
  | ok entries =>
    cases r.layered with
    | error e => rfl
    | ok layered =>
      have hclips := r.clipStatements_unworded settings effects
      have hcomposition := compositionStatements_unworded r.project.outputName "" settings.canvas
        layered
      simp only [bind, Except.bind, Except.map, pure, Except.pure, List.map_append, hclips]
      exact congrArg (fun ss => Except.ok (_ ++ ss)) hcomposition

end Resolved

/-! ## Outlines -/

namespace Script

/-- What can be seen of a line from afar: whether it is empty, and how far it is indented. -/
def outline (line : List Char) : Option ℕ :=
  if line = [] then none else some (indent line)

/-- What will be seen of a line from afar. -/
def Line.outline (l : Line) : Option ℕ :=
  if l.text = "" then none else some (4 * l.level)

/-- The characters of a sound line show its outline. -/
theorem Line.Sound.outline_chars {l : Line} (h : l.Sound) : Script.outline l.chars = l.outline := by
  by_cases hempty : l.text = ""
  · simp [Script.outline, Line.outline, hempty]
  · simp [Script.outline, Line.outline, hempty, (h.indent_chars hempty).1]

/-- A text seen from afar has the lines of its statements. -/
theorem map_outline_linesOf {ss : List (Statement LetterEffect)} (h : ∀ s ∈ ss, s.WellFormed) :
    (linesOf (textOf ss)).map outline =
      (ss.flatMap Statement.lines).map Line.outline ++ [none] := by
  have hsound : ∀ s ∈ ss, ∀ l ∈ s.lines, l.Sound := fun s hs => (h s hs).blocks.sound
  rw [linesOf_textOf hsound, List.map_append, List.map_map]
  congr 1
  refine List.map_congr_left fun l hl => ?_
  obtain ⟨s, hs, hl⟩ := List.mem_flatMap.mp hl
  exact (hsound s hs l hl).outline_chars

/-- The words of a statement change nothing that can be seen from afar. -/
theorem Statement.map_outline_unworded (s : Statement LetterEffect) :
    s.unworded.lines.map Line.outline = s.lines.map Line.outline := by
  cases s with
  | loadVideo clip path => simp [unworded, lines, actions, layout, Line.outline, toString_text]
  | loadAudio clip path => simp [unworded, lines, actions, layout, Line.outline, toString_text]
  | textClip clip arguments position =>
    cases harguments : arguments.background <;>
      simp [unworded, lines_textClip, Line.outline, flat, deeper, toString_text,
        TextArguments.lines_eq, TextArguments.unworded, harguments]
  | exportFilm name => simp [unworded, lines, actions, layout, Line.outline, toString_text]
  | _ => rfl

/-- Statements that differ in words only look the same from afar. -/
theorem map_outline_written {ss ts : List (Statement LetterEffect)} (hss : ∀ s ∈ ss, s.WellFormed)
    (hts : ∀ t ∈ ts, t.WellFormed)
    (h : ts.map Statement.unworded = ss.map Statement.unworded) :
    (linesOf (textOf (written [] ts))).map outline =
      (linesOf (textOf (written [] ss))).map outline := by
  have hkept {ss : List (Statement LetterEffect)} (hss : ∀ s ∈ ss, s.WellFormed) :
      ∀ s ∈ written [] ss, s.WellFormed := fun s hs => hss s ((written_sublist [] ss).subset hs)
  have hlines (ss : List (Statement LetterEffect)) :
      ((written [] ss).flatMap Statement.lines).map Line.outline =
      ((written [] (ss.map Statement.unworded)).flatMap Statement.lines).map Line.outline := by
    rw [written_map Statement.onceKey?_unworded, List.flatMap_map, List.map_flatMap,
      List.map_flatMap]
    simp only [Statement.map_outline_unworded]
  rw [map_outline_linesOf (hkept hts), map_outline_linesOf (hkept hss), hlines ts, hlines ss, h]

end Script

/-- Whatever the settings and the effects of a usable project are, its script is laid out in blocks:
it has no control characters but the line feeds, its lines are indented in steps of four blanks, and
a line is deeper than the one before, by one step, exactly when that one ends in a colon or an
opening bracket. No word can add or break a line: with other texts, paths, fonts, colours and
another name of the film, every line of the script is where it was. -/
theorem Project.script_laidOut {p : Project} (h : p.Usable) (settings : ScriptSettings)
    (effects : EffectRegistry LetterEffect) :
    ∃ r script, p.resolve = .ok r ∧ r.script settings effects = .ok script ∧
      LaidOut (linesOf script) ∧
      ∀ (q : Project) (settings' : ScriptSettings), q.unworded = p.unworded →
        settings'.unworded = settings.unworded →
        ∃ r' script', q.resolve = .ok r' ∧ r'.script settings' effects = .ok script' ∧
          LaidOut (linesOf script') ∧
          (linesOf script').map outline = (linesOf script).map outline := by
  obtain ⟨r, hr⟩ := h.exists_resolvesTo
  obtain ⟨ss, hss, hscript⟩ := hr.exists_script settings effects
  have hwellFormed := hr.wellFormed_statements h hss
  refine ⟨r, _, hr.resolve, hscript,
    laidOut_textOf_written hwellFormed (hr.getLast?_statements hss), ?_⟩
  intro q settings' hq hsettings
  obtain ⟨r', hresolve, hunworded⟩ : ∃ r', q.resolve = .ok r' ∧ r'.unworded = r.unworded := by
    have hresolve := q.resolve_unworded
    rw [hq, p.resolve_unworded, hr.resolve] at hresolve
    cases hq : q.resolve with
    | error e => simp [hq, Except.map] at hresolve
    | ok r' => exact ⟨r', rfl, by simpa [hq, Except.map] using hresolve.symm⟩
  have hr' := Project.resolvesTo_of_resolve hresolve
  obtain ⟨ts, hts, hscript'⟩ := hr'.exists_script settings' effects
  have hwords : ts.map Statement.unworded = ss.map Statement.unworded := by
    have hstatements := r'.statements_unworded settings' effects
    rw [hunworded, hsettings, r.statements_unworded, hss, hts] at hstatements
    exact (Except.ok.inj hstatements).symm
  have hwellFormed' : ∀ t ∈ ts, t.WellFormed := by
    intro t ht
    have hmem : t.unworded ∈ ss.map Statement.unworded := hwords ▸ List.mem_map_of_mem ht
    obtain ⟨s, hs, heq⟩ := List.mem_map.mp hmem
    rw [← t.wellFormed_unworded, ← heq, s.wellFormed_unworded]
    exact hwellFormed s hs
  exact ⟨r', _, hresolve, hscript',
    laidOut_textOf_written hwellFormed' (hr'.getLast?_statements hts),
    map_outline_written hwellFormed hwellFormed' hwords⟩

/-- The holiday film with words that try to leave their lines. -/
def Project.prank : Project :=
  { holiday with
    outputName := "holiday\"):\n"
    elements :=
      [.video ⟨"beach", "clips/beach.mp4\")\nimport os\n", some ⟨1920, 1080⟩,
          [.transition .fadeIn]⟩,
        .text ⟨"title", "Summer\n    2024:\r\n", [.effect .grouping]⟩,
        .audio ⟨"theme", "\\", [.normalize]⟩,
        .subtitle ⟨"caption", "The view\tfrom the top (", []⟩] }

/-- The script of the holiday film is laid out in blocks, and the pranks do not move a line of
it. -/
theorem Project.holiday_script_laidOut :
    holiday.Usable ∧ ∃ r script r' script', holiday.resolve = .ok r ∧
      r.script { } .standard = .ok script ∧ LaidOut (linesOf script) ∧ prank.resolve = .ok r' ∧
      r'.script { defaultFont := "Arial\n(", defaultFontColor := "white\":" } .standard =
        .ok script' ∧
      LaidOut (linesOf script') ∧
      (linesOf script').map outline = (linesOf script).map outline := by
  obtain ⟨r, script, hresolve, hscript, hlaidOut, hwords⟩ :=
    script_laidOut holiday_usable { } .standard
  obtain ⟨r', script', hresolve', hscript', hlaidOut', houtline⟩ :=
    hwords prank { defaultFont := "Arial\n(", defaultFontColor := "white\":" } rfl rfl
  exact ⟨holiday_usable, r, script, r', script', hresolve, hscript, hlaidOut, hresolve', hscript',
    hlaidOut', houtline⟩

end Montage
