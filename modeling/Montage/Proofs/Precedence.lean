import Mathlib.Data.List.Basic
import Montage.Proofs.Merging
import Montage.Proofs.Resolution
import Montage.Proofs.Written
import Montage.Script.Clip

/-!
# The precedence of options

An element may take a setting from its own options or from the options of its groups; of these
candidates the first one counts. Merging keeps one option of every key, so the values of a setting
in merged options are the value of the first candidate that has the setting, or none at all, in
whatever order the options stand. So it does not matter that the script takes the last value of a
setting where merging takes the first: the clip of a text is made from the first candidates.
-/

namespace Montage

open OptionCategory Script

/-! ## Candidates -/

/-- The options that a group gives to an element, if the group is of a category and the element is a
member. -/
def OptionGroup.optionsFor {O : Type} (category? : OptionGroup → Option (Group O))
    (element : String) (group : OptionGroup) : List O :=
  (category? group).toList.flatMap fun g => if element ∈ g.members then g.options else []

/-- The options that groups give to an element are those of the groups that are for it. -/
theorem flatMap_optionsFor {O : Type} (category? : OptionGroup → Option (Group O))
    (element : String) (groups : List OptionGroup) :
    groups.flatMap (OptionGroup.optionsFor category? element) =
      ((groups.filterMap category?).filter fun g => g.appliesTo element).flatMap (·.options) := by
  induction groups with
  | nil => rfl
  | cons group groups ih =>
    rw [List.flatMap_cons, ih, OptionGroup.optionsFor]
    cases hcategory : category? group with
    | none => simp [hcategory]
    | some g =>
      by_cases hmember : element ∈ g.members
      · simp [hcategory, Group.appliesTo, hmember]
      · simp [hcategory, Group.appliesTo, hmember]

/-! ## First values -/

section Settings

variable {O α : Type} [OptionCategory O]

/-- A setting that the options of one key have, and no others. -/
def IsSetting (value? : O → Option α) (k : Key O) : Prop :=
  ∀ o, (value? o).isSome = true ↔ key o = k

variable {value? : O → Option α} {k : Key O}

/-- An option with another key does not have the setting. -/
theorem IsSetting.eq_none (h : IsSetting value? k) {o : O} (hkey : key o ≠ k) :
    value? o = none := by
  rw [← Option.not_isSome_iff_eq_none, h o]
  exact hkey

/-- The values of a setting are those of the options with its key. -/
theorem IsSetting.filterMap_eq (h : IsSetting value? k) (options : List O) :
    options.filterMap value? = (options.filter fun o => key o = k).filterMap value? := by
  rw [List.filterMap_filter]
  refine List.filterMap_congr fun o _ => ?_
  by_cases hkey : key o = k
  · simp [hkey]
  · simp [hkey, h.eq_none hkey]

/-- The first value of a setting is the value of the first option with its key. -/
theorem IsSetting.findSome?_eq (h : IsSetting value? k) (options : List O) :
    options.findSome? value? = (options.find? fun o => key o = k).bind value? := by
  induction options with
  | nil => rfl
  | cons o options ih =>
    by_cases hkey : key o = k
    · obtain ⟨a, ha⟩ := Option.isSome_iff_exists.mp ((h o).mpr hkey)
      simp [hkey, ha]
    · simp [hkey, h.eq_none hkey, ih]

/-- However merged options are arranged, they have at most one value of a setting, that of the first
candidate. -/
theorem IsSetting.filterMap_perm (h : IsSetting value? k) {own shared options : List O}
    (hperm : options.Perm (mergeOptions own shared)) :
    options.filterMap value? = ((own ++ shared).findSome? value?).toList := by
  have hwinner : options.filter (fun o => key o = k) =
      ((own ++ shared).find? fun o => key o = k).toList := by
    have hfilter := hperm.filter fun o => key o = k
    rw [filter_key_mergeOptions] at hfilter
    cases hfirst : (own ++ shared).find? fun o => key o = k with
    | none => simpa [hfirst] using hfilter
    | some o => simpa [hfirst] using hfilter
  rw [h.filterMap_eq, hwinner, h.findSome?_eq]
  cases (own ++ shared).find? fun o => key o = k with
  | none => rfl
  | some o => cases hvalue : value? o <;> simp [hvalue]

end Settings

/-! ## Settings of texts -/

namespace Script

/-- The options of a kind set its value, and no others. -/
theorem isSetting_value? (k : TextOption.Kind) : IsSetting (TextOption.value? k) k := by
  intro o
  cases k <;> cases o <;> simp [TextOption.value?, key, TextOption.kind]

/-- The value of the first candidate of a kind. -/
def firstValue (k : TextOption.Kind) (candidates : List TextOption) : Option k.Value :=
  candidates.findSome? (TextOption.value? k)

/-- However merged options are arranged, the last value of a kind is that of the first candidate. -/
theorem lastValue_eq (k : TextOption.Kind) {own shared options : List TextOption}
    (hperm : options.Perm (mergeOptions own shared)) :
    lastValue k options = firstValue k (own ++ shared) := by
  rw [lastValue, (isSetting_value? k).filterMap_perm hperm, firstValue]
  cases (own ++ shared).findSome? (TextOption.value? k) <;> rfl

/-! ## What the first candidates say -/

/-- The frame of a text by the first candidate for it; without one, the whole canvas. -/
def firstSize (settings : ScriptSettings) (candidates : List TextOption) : PixelSize :=
  (firstValue .size candidates).getD settings.canvas.size

/-- Where a text is shown by the first candidate for its position; without one, in the middle. A
subtitle has its place in the settings. -/
def firstPosition (settings : ScriptSettings) (subtitle : Bool) (candidates : List TextOption) :
    Point :=
  if subtitle then ⟨.center, .pixels settings.subtitleOffset.toInt⟩
  else
    ((firstValue .position candidates).map fun p =>
      p.place settings.canvas (some (firstSize settings candidates)) .middle).getD .middle

/-- The lines that make the clip of a text from the first candidates and, where there is none, from
the settings of scripts. Only a candidate gives the clip a background. -/
def firstLines (settings : ScriptSettings) (subtitle : Bool) (name text : String)
    (candidates : List TextOption) : List Line :=
  let font := (firstValue .font candidates).getD settings.defaultFont
  let fontSize := (firstValue .fontSize candidates).getD settings.defaultFontSize
  let color := (firstValue .fontColor candidates).getD settings.defaultFontColor
  let alignment := (firstValue .alignment candidates).getD .left
  [flat s!"{name} = moviepy.TextClip(", ⟨1, s!"text={textLiteral text},"⟩] ++
    ((firstValue .background candidates).toList.map fun background =>
      ⟨1, s!"bg_color={textLiteral background},"⟩) ++
    [⟨1, s!"font={textLiteral (settings.fontArgument (some font))},"⟩,
      ⟨1, s!"font_size={pixelsLiteral fontSize},"⟩,
      ⟨1, s!"color={textLiteral color},"⟩,
      ⟨1, s!"text_align={textLiteral alignment.text},"⟩,
      ⟨1, s!"size={sizeLiteral (firstSize settings candidates)},"⟩,
      flat s!").with_position({pointLiteral (firstPosition settings subtitle candidates)})"]

/-- The animation of a text by the first candidate for an effect, if the registry knows it. -/
def firstAnimation (settings : ScriptSettings) (effects : EffectRegistry LetterEffect)
    (duration : Float) (subtitle : Bool) (name : String) (candidates : List TextOption) :
    List (Statement LetterEffect) :=
  ((firstValue .effect candidates).bind fun e => effects.find? e.name).toList.flatMap fun effect =>
    animationStatements name effect settings.canvas duration
      (firstPosition settings subtitle candidates)

section Look

variable {own shared options : List TextOption} {t : TextBlock}

/-- A text is shown where the first candidates say. -/
theorem textPosition_eq (hperm : options.Perm (mergeOptions own shared))
    (settings : ScriptSettings) (e : Element) :
    textPosition settings e options = firstPosition settings e.isSubtitle (own ++ shared) := by
  rw [textPosition, firstPosition, textSize, firstSize, lastValue_eq .position hperm,
    lastValue_eq .size hperm]
  cases firstValue .position (own ++ shared) <;> rfl

/-- The effect of a text is that of the first candidate, if the registry knows it. -/
theorem chosenEffect?_eq (hperm : options.Perm (mergeOptions own shared))
    (effects : EffectRegistry LetterEffect) :
    chosenEffect? effects options =
      (firstValue .effect (own ++ shared)).bind fun e => effects.find? e.name := by
  rw [chosenEffect?, lastValue_eq .effect hperm]
  cases firstValue .effect (own ++ shared) <;> rfl

/-- The lines that make the clip of a text are those of the first candidates. -/
theorem lines_textClip (hperm : t.options.Perm (mergeOptions own shared))
    (settings : ScriptSettings) (subtitle : Bool) :
    (Statement.textClip t.name (textArguments settings t)
      (firstPosition settings subtitle (own ++ shared))).lines =
      firstLines settings subtitle t.name t.text (own ++ shared) := by
  have hfont : settings.fontArgument (lastValue .font t.options) =
      settings.fontArgument
        (some ((firstValue .font (own ++ shared)).getD settings.defaultFont)) := by
    rw [lastValue_eq .font hperm]
    rfl
  simp only [Statement.lines_textClip, TextArguments.lines_eq, textArguments, hfont, firstLines,
    textSize, firstSize, lastValue_eq .background hperm, lastValue_eq .fontSize hperm,
    lastValue_eq .fontColor hperm, lastValue_eq .alignment hperm,
    lastValue_eq .size hperm]
  simp [deeper, flat, atDepth]

/-- The clip of a text is made and animated as the first candidates say. -/
theorem lines_textStatements {e : Element} (ht : e.textBlock? = some t)
    (hperm : t.options.Perm (mergeOptions own shared)) (settings : ScriptSettings)
    (effects : EffectRegistry LetterEffect) (duration : Float) :
    (textStatements settings effects duration e).flatMap Statement.lines =
      flat (if e.isSubtitle then "# Load the subtitle clip" else "# Load the text clip") ::
        firstLines settings e.isSubtitle t.name t.text (own ++ shared) ++
        (firstAnimation settings effects duration e.isSubtitle t.name (own ++ shared)).flatMap
          Statement.lines ++ [flat ""] := by
  have htitle : (Statement.comment (if e.isSubtitle then "Load the subtitle clip"
      else "Load the text clip")).lines =
      [flat (if e.isSubtitle then "# Load the subtitle clip" else "# Load the text clip")] := by
    cases e.isSubtitle <;> rfl
  have hblank : Statement.blank.lines = [flat ""] := rfl
  rw [textStatements]
  simp only [ht, chosenEffect?_eq hperm, textPosition_eq hperm, firstAnimation,
    ← lines_textClip hperm, List.flatMap_append, List.flatMap_cons, htitle, hblank]
  cases (firstValue .effect (own ++ shared)).bind fun e => effects.find? e.name <;> simp

end Look

/-- What is written for one text is the text of its lines: the helpers of animations and the motion
of an effect have keys of their own. -/
theorem render_textStatements (settings : ScriptSettings) (effects : EffectRegistry LetterEffect)
    (duration : Float) (e : Element) :
    render (textStatements settings effects duration e) =
      linesText ((textStatements settings effects duration e).flatMap Statement.lines) := by
  have hkeys (effect : LetterEffect) :
      "letter-animation" ≠ s!"letter-effect:{TextEffect.name effect}" := by
    intro heq
    cases Statement.onceKey?_inj (s := .letterMotion effect) (t := .letterHelpers) rfl
      (congrArg some heq)
  apply render_eq_linesText
  rw [textStatements]
  cases e.textBlock? with
  | none => exact List.nodup_nil
  | some t =>
    cases hchosen : chosenEffect? effects t.options with
    | none => simp [hchosen, List.filterMap_cons, Statement.onceKey?]
    | some effect =>
      simp only [hchosen, animationStatements, List.cons_append, List.nil_append,
        List.filterMap_cons, Statement.onceKey?, List.filterMap_nil]
      exact List.nodup_cons.mpr ⟨fun h => hkeys effect (List.mem_singleton.mp h),
        List.nodup_singleton _⟩

end Script

/-! ## Texts of resolved projects -/

/-- An element whose text has other options. -/
def Element.withTextOptions (options : List TextOption) : Element → Element
  | .text t => .text { t with options := options }
  | .subtitle t => .subtitle { t with options := options }
  | e => e

/-- The clip of a text does not depend on the order of its merged options. -/
theorem Script.textStatements_withTextOptions {e : Element} {t : TextBlock}
    {own shared options : List TextOption} (ht : e.textBlock? = some t)
    (hmerged : t.options = mergeOptions own shared) (hperm : options.Perm t.options)
    (settings : ScriptSettings) (effects : EffectRegistry LetterEffect) (duration : Float) :
    textStatements settings effects duration (e.withTextOptions options) =
      textStatements settings effects duration e := by
  have hresolved : t.options.Perm (mergeOptions own shared) := .of_eq hmerged
  -- In both orders the last value of a setting is that of the first candidate.
  have hlast (k : TextOption.Kind) : lastValue k options = lastValue k t.options :=
    (lastValue_eq k (hperm.trans hresolved)).trans (lastValue_eq k hresolved).symm
  have harguments : textArguments settings { t with options := options } =
      textArguments settings t := by
    simp only [textArguments, textSize, hlast .background, hlast .font,
      hlast .fontSize, hlast .fontColor, hlast .alignment,
      hlast .size]
  have hposition (e : Element) :
      textPosition settings e options = textPosition settings e t.options :=
    (textPosition_eq (hperm.trans hresolved) settings e).trans
      (textPosition_eq hresolved settings e).symm
  have heffect : chosenEffect? effects options = chosenEffect? effects t.options :=
    (chosenEffect?_eq (hperm.trans hresolved) effects).trans
      (chosenEffect?_eq hresolved effects).symm
  cases e with
  | text x | subtitle x =>
    obtain rfl := Option.some.inj ht
    simp only [Element.withTextOptions, textStatements, Element.textBlock?, harguments, hposition,
      heffect]
    rfl
  | _ => cases ht

namespace Project

/-- The options that a text may take, in the order of their precedence: its own ones, and those of
the groups of texts that name it, in the order of the project. -/
def textCandidates (p : Project) (t : TextBlock) : List TextOption :=
  t.options ++ p.groups.flatMap (OptionGroup.optionsFor OptionGroup.text? t.name)

/-- Resolution merges the candidates for a text. -/
theorem textBlock?_mergeInto (p : Project) {e : Element} {t : TextBlock}
    (ht : e.textBlock? = some t) :
    (p.mergeInto e).textBlock? = some { t with
      options := mergeOptions t.options
        (p.groups.flatMap (OptionGroup.optionsFor OptionGroup.text? t.name)) } := by
  cases e with
  | text x | subtitle x =>
    obtain rfl := Option.some.inj ht
    rw [flatMap_optionsFor]
    rfl
  | _ => cases ht

/-- Merging changes no text into a subtitle or back. -/
theorem isSubtitle_mergeInto (p : Project) (e : Element) :
    (p.mergeInto e).isSubtitle = e.isSubtitle := by
  cases e <;> rfl

variable {p : Project} {r : Resolved}

/-- The elements of a resolved project are those of the project, with merged options. -/
theorem getElem?_elements (h : p.resolve = .ok r) {i : ℕ} {e : Element}
    (he : p.elements[i]? = some e) : r.project.elements[i]? = some (p.mergeInto e) := by
  rw [(resolvesTo_of_resolve h).elements, mergedElements, List.getElem?_map, he]
  rfl

/-- The clip of a text or subtitle in a resolved project is written with every argument taken from
the first candidate for it: an own option, or else an option of the first group that has one.
Without a candidate the argument is taken from the settings of scripts, and there is no background.
The effect is the first candidate for an effect. What is written does not depend on the order in
which the resolved options stand. -/
theorem text_follows_precedence (h : p.resolve = .ok r) {i : ℕ} {e : Element} {t : TextBlock}
    (he : p.elements[i]? = some e) (ht : e.textBlock? = some t) :
    ∃ e' t', r.project.elements[i]? = some e' ∧ e'.textBlock? = some t' ∧
      ∀ (settings : ScriptSettings) (effects : EffectRegistry LetterEffect) (duration : Float),
        (textStatements settings effects duration e').flatMap Statement.lines =
          flat (if e.isSubtitle then "# Load the subtitle clip" else "# Load the text clip") ::
            firstLines settings e.isSubtitle t.name t.text (p.textCandidates t) ++
            (firstAnimation settings effects duration e.isSubtitle t.name
              (p.textCandidates t)).flatMap Statement.lines ++ [flat ""] ∧
        render (textStatements settings effects duration e') =
          linesText ((textStatements settings effects duration e').flatMap Statement.lines) ∧
        ∀ options : List TextOption, options.Perm t'.options →
          textStatements settings effects duration (e'.withTextOptions options) =
            textStatements settings effects duration e' := by
  have ht' := p.textBlock?_mergeInto ht
  refine ⟨p.mergeInto e, _, getElem?_elements h he, ht', fun settings effects duration => ?_⟩
  refine ⟨?_, render_textStatements settings effects duration _, ?_⟩
  · rw [lines_textStatements ht' (List.Perm.refl _), isSubtitle_mergeInto]
    rfl
  · intro options hperm
    exact textStatements_withTextOptions ht' rfl hperm settings effects duration

/-- A title with two sizes of letters of its own. -/
def premiereTitle : TextBlock :=
  ⟨"title", "First \"night\"",
    [.fontSize 72, .position ⟨some (.aligned .right), some (.aligned .top)⟩, .fontSize 24]⟩

/-- A premiere with two groups that compete with the options of its title and with each other. -/
def premiere : Project where
  outputName := "premiere"
  elements := [.text premiereTitle]
  groups :=
    [.text ⟨"soft", ["title"], [.font "Verdana", .fontSize 40, .size ⟨800, 200⟩]⟩,
      .text ⟨"loud", ["title"],
        [.size ⟨640, 100⟩, .background "black", .font "Impact", .effect .falling]⟩]
  timeline := [⟨"#1", "title", .implicit, none, none⟩]

/-- The title takes its own size of letters, the font and the frame of the first group, and the
background of the second one. -/
theorem premiere_text_follows_precedence : ∃ r e', premiere.resolve = .ok r ∧
    r.project.elements[0]? = some e' ∧
    ((textStatements { } .standard 5.0 e').flatMap Statement.lines).take 10 =
      [flat "# Load the text clip", flat "title = moviepy.TextClip(",
        ⟨1, "text=\"First \\\"night\\\"\","⟩, ⟨1, "bg_color=\"black\","⟩,
        ⟨1, "font=\"Verdana\","⟩, ⟨1, "font_size=72,"⟩, ⟨1, "color=\"white\","⟩,
        ⟨1, "text_align=\"left\","⟩, ⟨1, "size=(800, 200),"⟩,
        flat ").with_position((1120, 0))"] := by
  have husable : premiere.Usable := by decide +kernel
  obtain ⟨r, hr⟩ := husable.exists_resolvesTo
  obtain ⟨e', t', he', -, hlook⟩ := text_follows_precedence hr.resolve (i := 0) rfl rfl
  refine ⟨r, e', hr.resolve, he', ?_⟩
  rw [(hlook { } .standard 5.0).1]
  decide

end Project

end Montage
