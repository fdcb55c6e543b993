import Mathlib.Data.List.Basic
import Montage.Proofs.Doubles
import Montage.Proofs.Merging
import Montage.Proofs.Resolution

/-!
# Options in range

The rule on ranges looks at the options of elements and of groups one by one, before they are
merged. Merging takes every option from an element or from a group that is for it, so the merged
options are in range as well. Subtitles need more: whether a group reaches a subtitle is decided by
looking up the names of its members, while merging asks which groups an element is a member of. The
two agree because the names of elements differ.
-/

namespace Montage

open Diagnostic

/-! ## Ranges -/

/-- A number that lies between two others, the ends included. -/
structure Within (low high x : Float) : Prop where
  isNumber : x.isNaN = false
  low_le : low ≤ x
  le_high : x ≤ high

/-- A number that passes the test between two numbers lies between them. -/
theorem within_of_between {low high x : Float} (h : between low high x = true) :
    Within low high x := by
  simp only [between, Bool.and_eq_true, decide_eq_true_eq] at h
  exact ⟨(Double.isNaN_of_le h.1).2, h.1, h.2⟩

/-- A number above zero. -/
structure Positive (x : Float) : Prop where
  isNumber : x.isNaN = false
  zero_lt : 0.0 < x

/-- A number that passes the test for positive numbers is above zero. -/
theorem positive_of_isPositive {x : Float} (h : isPositive x = true) : Positive x := by
  simp only [isPositive, Bool.and_eq_true, Bool.not_eq_true', decide_eq_false_iff_not] at h
  exact ⟨h.1, Double.pos_of_not_le h.1 h.2⟩

/-- The value of a video option is one that its effect accepts. -/
def VideoOption.InRange : VideoOption → Prop
  | brightness x => Within (-5.0) 5.0 x
  | contrast x => Within 0.0 5.0 x
  | saturation x => Within (-1.0) 1.0 x
  | opacity x => Within 0.0 1.0 x
  | scale x => Positive x ∧ x ≤ 3.0
  | size s => (0 < s.width ∧ s.width ≤ 1920) ∧ 0 < s.height ∧ s.height ≤ 1080
  | rotation _ | transition _ | resolution _ | position _ => True

/-- The value of an audio option is one that its effect accepts. -/
def AudioOption.InRange : AudioOption → Prop
  | volume x => Within 0.0 2.0 x
  | stereoVolume v => Within 0.0 2.0 v.left ∧ Within 0.0 2.0 v.right
  | fadeIn x | fadeOut x => Positive x
  | normalize => True

/-- A hexadecimal digit. -/
def IsHexDigit (c : Char) : Prop :=
  ('0' ≤ c ∧ c ≤ '9') ∨ ('a' ≤ c ∧ c ≤ 'f') ∨ ('A' ≤ c ∧ c ≤ 'F')

/-- A text that is the name of a colour up to the case of its letters, or a number sign with six
hexadecimal digits. -/
def IsColor (s : String) : Prop :=
  (∃ name ∈ colorNames, s.toList.map smallLetter = name.toList) ∨
    ∃ digits, s.toList = '#' :: digits ∧ digits.length = 6 ∧ ∀ c ∈ digits, IsHexDigit c

/-- What has a value as a hexadecimal digit is one. -/
theorem isHexDigit_of_hexValue? {c : Char} (h : (Decimal.hexValue? c).isSome = true) :
    IsHexDigit c := by
  unfold Decimal.hexValue? at h
  split_ifs at h with hdigit hsmall hlarge
  · exact .inl hdigit
  · exact .inr (.inl hsmall)
  · exact .inr (.inr hlarge)
  · exact absurd h (by decide)

/-- A text that passes the test for colours is one. -/
theorem isColor_of_test {s : String} (h : isColor s = true) : IsColor s := by
  rw [isColor, Bool.or_eq_true] at h
  rcases h with hname | hhex
  · rw [isColorName, List.contains_iff_mem] at hname
    exact .inl ⟨_, hname, by simp⟩
  · unfold isHexColor at hhex
    split at hhex
    · rename_i digits hlist
      simp only [Bool.and_eq_true, decide_eq_true_eq, List.all_eq_true] at hhex
      exact .inr ⟨digits, hlist, hhex.1, fun c hc => isHexDigit_of_hexValue? (hhex.2 c hc)⟩
    · exact absurd hhex (by decide)

/-- The value of a text option is one that can be shown. -/
def TextOption.InRange : TextOption → Prop
  | fontSize n => n ≤ 128
  | fontColor color | background color => IsColor color
  | font _ | alignment _ | size _ | position _ | effect _ => True

/-- The options of an element are in range, a piece ends after it starts, and a subtitle is not
moved. -/
def Element.InRange : Element → Prop
  | .video v => ∀ o ∈ v.options, o.InRange
  | .videoExtract e => (∀ o ∈ e.options, o.InRange) ∧ e.start.total < e.stop.total
  | .audio a => ∀ o ∈ a.options, o.InRange
  | .audioExtract e => (∀ o ∈ e.options, o.InRange) ∧ e.start.total < e.stop.total
  | .text t => ∀ o ∈ t.options, o.InRange
  | .subtitle t => ∀ o ∈ t.options, o.InRange ∧ o.kind ≠ .position

/-! ## What the rule on ranges promises -/

/-- Nothing is wrong with a value that passes the test. -/
theorem of_complaint_eq_none {passes : Bool} {message : String}
    (h : (if passes then none else some message) = none) : passes = true := by
  cases passes with
  | true => rfl
  | false => exact absurd h (by simp)

/-- A video option about which nothing is said is in range. -/
theorem VideoOption.inRange_of_complaint? {o : VideoOption} (h : o.complaint? = none) :
    o.InRange := by
  cases o with
  | brightness x | contrast x | saturation x | opacity x =>
    exact within_of_between (of_complaint_eq_none h)
  | scale x =>
    have hpasses := of_complaint_eq_none h
    simp only [Bool.and_eq_true, Bool.not_eq_true', decide_eq_false_iff_not] at hpasses
    have hwithin := within_of_between hpasses.1
    exact ⟨⟨hwithin.isNumber, Double.pos_of_not_le hwithin.isNumber hpasses.2⟩, hwithin.le_high⟩
  | size s =>
    have hpasses := of_complaint_eq_none h
    simp only [PixelSize.isUsable, Bool.and_eq_true, decide_eq_true_eq] at hpasses
    obtain ⟨⟨⟨hwidth, hheight⟩, hwide⟩, hhigh⟩ := hpasses
    exact ⟨⟨UInt32.pos_iff_ne_zero.2 hwidth, hwide⟩, UInt32.pos_iff_ne_zero.2 hheight, hhigh⟩
  | rotation _ | transition _ | resolution _ | position _ => trivial

/-- An audio option about which nothing is said is in range. -/
theorem AudioOption.inRange_of_complaint? {o : AudioOption} (h : o.complaint? = none) :
    o.InRange := by
  cases o with
  | volume x =>
    exact within_of_between (of_complaint_eq_none h)
  | stereoVolume v =>
    have hpasses := of_complaint_eq_none h
    rw [Bool.and_eq_true] at hpasses
    exact ⟨within_of_between hpasses.1, within_of_between hpasses.2⟩
  | fadeIn x | fadeOut x =>
    exact positive_of_isPositive (of_complaint_eq_none h)
  | normalize => trivial

/-- A video option without errors is in range. -/
theorem videoOption_inRange {target : String} {o : VideoOption}
    (h : anyError (Rule.videoOptionFindings target o) = false) : o.InRange := by
  refine VideoOption.inRange_of_complaint? ?_
  cases hcomplaint : o.complaint? with
  | none => rfl
  | some message => simp [Rule.videoOptionFindings, hcomplaint] at h

/-- An audio option without errors is in range. -/
theorem audioOption_inRange {target : String} {o : AudioOption}
    (h : anyError (Rule.audioOptionFindings target o) = false) : o.InRange := by
  refine AudioOption.inRange_of_complaint? ?_
  cases hcomplaint : o.complaint? with
  | none => rfl
  | some message => simp [Rule.audioOptionFindings, hcomplaint] at h

/-- A text option without errors is in range, and it is no position if it may be one of a
subtitle. -/
theorem textOption_inRange {subtitle : Bool} {target : String} {o : TextOption}
    (h : anyError (Rule.textOptionFindings subtitle target o) = false) :
    o.InRange ∧ (subtitle = true → o.kind ≠ .position) := by
  cases o with
  | position at_ =>
    rw [Rule.textOptionFindings, anyError_ite_error_eq_false_iff] at h
    exact ⟨trivial, fun hsubtitle => absurd hsubtitle h⟩
  | fontSize n =>
    rw [Rule.textOptionFindings, anyError_ite_error_eq_false_iff, UInt32.not_lt] at h
    exact ⟨h, fun _ => nofun⟩
  | fontColor color | background color =>
    rw [Rule.textOptionFindings, anyError_ite_nil_eq_false_iff] at h
    exact ⟨isColor_of_test h, fun _ => nofun⟩
  | font name | alignment a | size s | effect e => exact ⟨trivial, fun _ => nofun⟩

/-- A piece without errors ends after it starts. -/
theorem start_before_stop {O : Type} {e : Extract O}
    (h : anyError (Rule.boundsFindings e) = false) : e.start.total < e.stop.total := by
  rw [Rule.boundsFindings, anyError_ite_error_eq_false_iff] at h
  by_contra hle
  exact h (Timestamp.toFloat_mono (not_lt.1 hle))

/-- An element without errors is in range. -/
theorem Element.inRange_of_findings {e : Element}
    (h : anyError (Rule.elementRangeFindings e) = false) : e.InRange := by
  cases e with
  | video v =>
    rw [Rule.elementRangeFindings, anyError_flatMap_eq_false_iff] at h
    exact fun o ho => videoOption_inRange (h o ho)
  | videoExtract e =>
    rw [Rule.elementRangeFindings, anyError_append, Bool.or_eq_false_iff,
      anyError_flatMap_eq_false_iff] at h
    exact ⟨fun o ho => videoOption_inRange (h.2 o ho), start_before_stop h.1⟩
  | audio a =>
    rw [Rule.elementRangeFindings, anyError_flatMap_eq_false_iff] at h
    exact fun o ho => audioOption_inRange (h o ho)
  | audioExtract e =>
    rw [Rule.elementRangeFindings, anyError_append, Bool.or_eq_false_iff,
      anyError_flatMap_eq_false_iff] at h
    exact ⟨fun o ho => audioOption_inRange (h.2 o ho), start_before_stop h.1⟩
  | text t =>
    rw [Rule.elementRangeFindings, anyError_flatMap_eq_false_iff] at h
    exact fun o ho => (textOption_inRange (h o ho)).1
  | subtitle t =>
    rw [Rule.elementRangeFindings, anyError_append, Bool.or_eq_false_iff,
      anyError_flatMap_eq_false_iff] at h
    exact fun o ho => ⟨(textOption_inRange (h.2 o ho)).1, (textOption_inRange (h.2 o ho)).2 rfl⟩

namespace Project

/-- What the rule on ranges promises of the options that are declared. -/
structure SoundOptions (p : Project) : Prop where
  elements : ∀ e ∈ p.elements, e.InRange
  video : ∀ g, .video g ∈ p.groups → ∀ o ∈ g.options, o.InRange
  audio : ∀ g, .audio g ∈ p.groups → ∀ o ∈ g.options, o.InRange
  text : ∀ g, .text g ∈ p.groups → ∀ o ∈ g.options, o.InRange
  /-- A group whose members lead to a subtitle does not move texts. -/
  subtitle : ∀ g, .text g ∈ p.groups → Rule.reachesSubtitle p g = true →
    ∀ o ∈ g.options, o.kind ≠ .position

/-- The options of a usable project are sound. -/
theorem Usable.options {p : Project} (h : p.Usable) : p.SoundOptions := by
  have hrule := h.check .optionRange
  simp only [Rule.optionRange, Rule.rangeFindings, anyError_append, Bool.or_eq_false_iff,
    anyError_flatMap_eq_false_iff] at hrule
  obtain ⟨helements, hgroups⟩ := hrule
  refine ⟨fun e he => Element.inRange_of_findings (helements e he), ?_, ?_, ?_, ?_⟩
  · intro g hg o ho
    have hfound := hgroups _ hg
    rw [Rule.groupRangeFindings, anyError_flatMap_eq_false_iff] at hfound
    exact videoOption_inRange (hfound o ho)
  · intro g hg o ho
    have hfound := hgroups _ hg
    rw [Rule.groupRangeFindings, anyError_flatMap_eq_false_iff] at hfound
    exact audioOption_inRange (hfound o ho)
  · intro g hg o ho
    have hfound := hgroups _ hg
    rw [Rule.groupRangeFindings, anyError_flatMap_eq_false_iff] at hfound
    exact (textOption_inRange (hfound o ho)).1
  · intro g hg hreaches o ho
    have hfound := hgroups _ hg
    rw [Rule.groupRangeFindings, anyError_flatMap_eq_false_iff] at hfound
    exact (textOption_inRange (hfound o ho)).2 hreaches

end Project

/-! ## Merging -/

namespace Project

/-- What holds of the own options and of the options of groups that are for an element holds of its
merged options. -/
theorem forall_mem_mergeOptions {O : Type} [OptionCategory O] {own : List O}
    {groups : List (Group O)} {P : O → Prop} (hown : ∀ o ∈ own, P o)
    (hgroups : ∀ g ∈ groups, ∀ o ∈ g.options, P o) :
    ∀ o ∈ mergeOptions own (groups.flatMap (·.options)), P o := by
  intro o ho
  rcases mem_of_mem_mergeOptions ho with ho | ho
  · exact hown o ho
  · obtain ⟨g, hg, hog⟩ := List.mem_flatMap.1 ho
    exact hgroups g hg o hog

/-- The groups that options are taken from are groups of the project, and the element is one of
their members. -/
theorem mem_groups_of_mem_filter {O : Type} {groups : List OptionGroup} {name : String}
    {category? : OptionGroup → Option (Group O)} {wrap : Group O → OptionGroup}
    (hcategory : ∀ group g, category? group = some g → group = wrap g) {g : Group O}
    (h : g ∈ (groups.filterMap category?).filter fun g => g.appliesTo name) :
    wrap g ∈ groups ∧ name ∈ g.members := by
  rw [List.mem_filter, List.mem_filterMap] at h
  obtain ⟨⟨group, hgroup, hwrapped⟩, happlies⟩ := h
  rw [hcategory group g hwrapped] at hgroup
  exact ⟨hgroup, List.contains_iff_mem.1 happlies⟩

/-- The groups of video options for an element are groups of the project. -/
theorem mem_groups_of_mem_videoGroupsOf {p : Project} {name : String} {g : Group VideoOption}
    (h : g ∈ p.videoGroupsOf name) : .video g ∈ p.groups :=
  (mem_groups_of_mem_filter (fun group => group.eq_of_category.1) h).1

/-- The groups of audio options for an element are groups of the project. -/
theorem mem_groups_of_mem_audioGroupsOf {p : Project} {name : String} {g : Group AudioOption}
    (h : g ∈ p.audioGroupsOf name) : .audio g ∈ p.groups :=
  (mem_groups_of_mem_filter (fun group => group.eq_of_category.2.1) h).1

/-- The groups of text options for an element are groups of the project with the element as a
member. -/
theorem mem_groups_of_mem_textGroupsOf {p : Project} {name : String} {g : Group TextOption}
    (h : g ∈ p.textGroupsOf name) : .text g ∈ p.groups ∧ name ∈ g.members :=
  mem_groups_of_mem_filter (fun group => group.eq_of_category.2.2) h

/-- The first element of a name is the only one. -/
theorem SoundNames.element?_eq_some {p : Project} (h : p.SoundNames) {e : Element}
    (he : e ∈ p.elements) : p.element? e.name = some e := by
  obtain ⟨e', he'⟩ : ∃ e', p.element? e.name = some e' := by
    rw [← Option.isSome_iff_exists, element?, List.find?_isSome]
    exact ⟨e, he, by simp⟩
  obtain ⟨hmem, hname⟩ := Project.element?_eq_some he'
  rw [he', h.element_inj hmem he hname]

/-- A group with a subtitle as a member reaches it by name. -/
theorem SoundNames.reachesSubtitle {p : Project} (h : p.SoundNames) {t : TextBlock}
    (ht : .subtitle t ∈ p.elements) {g : Group TextOption} (hg : t.name ∈ g.members) :
    Rule.reachesSubtitle p g = true := by
  have hfound : p.element? t.name = some (.subtitle t) := h.element?_eq_some ht
  rw [Rule.reachesSubtitle, List.any_eq_true]
  exact ⟨t.name, hg, by simp [hfound, Element.isSubtitle]⟩

/-- The merged options of an element are in range. -/
theorem SoundOptions.mergeInto {p : Project} (hnames : p.SoundNames) (hoptions : p.SoundOptions)
    {e : Element} (he : e ∈ p.elements) : (p.mergeInto e).InRange := by
  have hown := hoptions.elements e he
  cases e with
  | video v =>
    exact forall_mem_mergeOptions hown fun g hg =>
      hoptions.video g (mem_groups_of_mem_videoGroupsOf hg)
  | videoExtract e =>
    exact ⟨forall_mem_mergeOptions hown.1 fun g hg =>
      hoptions.video g (mem_groups_of_mem_videoGroupsOf hg), hown.2⟩
  | audio a =>
    exact forall_mem_mergeOptions hown fun g hg =>
      hoptions.audio g (mem_groups_of_mem_audioGroupsOf hg)
  | audioExtract e =>
    exact ⟨forall_mem_mergeOptions hown.1 fun g hg =>
      hoptions.audio g (mem_groups_of_mem_audioGroupsOf hg), hown.2⟩
  | text t =>
    exact forall_mem_mergeOptions hown fun g hg =>
      hoptions.text g (mem_groups_of_mem_textGroupsOf hg).1
  | subtitle t =>
    -- the group that a name leads to and the group that a name is in are one, since names differ
    refine forall_mem_mergeOptions hown fun g hg o ho => ?_
    obtain ⟨hgroup, hmember⟩ := mem_groups_of_mem_textGroupsOf hg
    exact ⟨hoptions.text g hgroup o ho,
      hoptions.subtitle g hgroup (hnames.reachesSubtitle he hmember) o ho⟩

/-- Checking options before they are merged is enough: a project without errors resolves to the
same elements, and their merged options are in range. -/
theorem merged_options_in_range {p : Project} (h : p.Usable) :
    ∃ r, p.resolve = .ok r ∧
      r.project.elements.map Element.name = p.elements.map Element.name ∧
      ∀ e ∈ r.project.elements, e.InRange := by
  obtain ⟨r, hr⟩ := h.exists_resolvesTo
  refine ⟨r, hr.resolve, ?_, ?_⟩
  · rw [hr.elements, map_name_mergedElements]
  · rw [hr.elements, mergedElements]
    intro e he
    obtain ⟨own, hown, rfl⟩ := List.mem_map.1 he
    exact h.options.mergeInto h.names hown

/-- A concert with pieces of a recording and of its sound, groups of all kinds and a subtitle that
shares a group with a title. -/
def recital : Project where
  outputName := "recital"
  elements :=
    [.video ⟨"stage", "clips/stage.mp4", some ⟨1280, 720⟩, [.brightness 1.5, .size ⟨1280, 720⟩]⟩,
      .videoExtract ⟨"solo", "stage", .read "01:10", .read "01:10.001", [.scale 0.5]⟩,
      .audio ⟨"piano", "audio/piano.wav", [.stereoVolume ⟨0.0, 2.0⟩]⟩,
      .audioExtract ⟨"coda", "piano", .read "00:59.999", .read "01:00", [.fadeOut 0.25]⟩,
      .text ⟨"programme", "Three pieces",
        [.fontColor "Orange", .position ⟨some (.pixels 12), some (.aligned .top)⟩]⟩,
      .subtitle ⟨"credit", "Played by heart", [.fontSize 128]⟩]
  groups :=
    [.video ⟨"look", ["stage", "solo"], [.opacity 1.0, .contrast 0.0, .brightness 5.0]⟩,
      .audio ⟨"level", ["coda"], [.volume 0.75, .fadeOut 3.0]⟩,
      .text ⟨"letters", ["credit", "programme"], [.background "#00ffCC", .fontSize 12]⟩]
  timeline :=
    [⟨"#1", "solo", .implicit, none, none⟩, ⟨"#2", "credit", .implicit, none, none⟩]

/-- The options of the concert stay in range. -/
theorem recital_options_in_range :
    recital.Usable ∧ ∃ r, recital.resolve = .ok r ∧
      r.project.elements.map Element.name = recital.elements.map Element.name ∧
      ∀ e ∈ r.project.elements, e.InRange :=
  have husable : recital.Usable := by decide +kernel
  ⟨husable, merged_options_in_range husable⟩

end Project

end Montage
