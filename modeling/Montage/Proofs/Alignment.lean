import Mathlib.Data.List.Basic
import Montage.Proofs.Assignments
import Montage.Proofs.Precedence

/-!
# The alignment of videos

A video that is aligned to the right or to the bottom of the canvas is placed by its frame. The
options of the video say which frame that is: a size in pixels or a named one. Both compete for one
place, so at most one of them is left when options are merged, and both are presented in front of
positions. So the lines of the options first resize the clip, if an option says so, and then place
it by exactly this size.
-/

namespace Montage

open OptionCategory Script

/-! ## The order of merged options -/

/-- The key that sizes and named sizes compete for. -/
def sizeKey : Key VideoOption :=
  VideoOption.Key.kind .size

/-- The key that positions compete for. -/
def positionKey : Key VideoOption :=
  VideoOption.Key.kind .position

/-- Only sizes are presented in front of sizes. -/
theorem key_eq_sizeKey {a b : VideoOption} (hab : presentedBefore a b = true)
    (hb : key b = sizeKey) : key a = sizeKey := by
  cases b with
  | size s | resolution preset =>
    cases a <;> simp_all [presentedBefore, rank, VideoOption.kind, VideoOption.Kind.rank, key,
      VideoOption.key, sizeKey]
  | _ => cases hb

/-- Only sizes and positions are presented in front of positions. -/
theorem key_eq_positionKey {a b : VideoOption} (hab : presentedBefore a b = true)
    (hb : key b = positionKey) (ha : key a ≠ sizeKey) : key a = positionKey := by
  cases b with
  | position p =>
    cases a <;> simp_all [presentedBefore, rank, VideoOption.kind, VideoOption.Kind.rank, key,
      VideoOption.key, sizeKey, positionKey]
  | _ => cases hb

/-- Merged options are the first candidate for a size, the first candidate for a position, and
options of other kinds. -/
theorem exists_mergeOptions_eq (own shared : List VideoOption) :
    ∃ others, mergeOptions own shared =
        ((own ++ shared).find? fun o => key o = sizeKey).toList ++
          (((own ++ shared).find? fun o => key o = positionKey).toList ++ others) ∧
      ∀ o ∈ others, key o ≠ sizeKey ∧ key o ≠ positionKey := by
  let merged := mergeOptions own shared
  let unsized := merged.filter fun o => !decide (key o = sizeKey)
  have hsorted : merged.Pairwise fun a b => presentedBefore a b = true :=
    pairwise_mergeOptions own shared
  have hsizes : merged = merged.filter (fun o => key o = sizeKey) ++ unsized := by
    refine eq_filter_append_filter (hsorted.imp fun hab hb => ?_)
    simpa using key_eq_sizeKey hab (by simpa using hb)
  have hpositions : unsized = unsized.filter (fun o => key o = positionKey) ++
      unsized.filter fun o => !decide (key o = positionKey) := by
    refine eq_filter_append_filter ((hsorted.filter _).imp_of_mem fun ha _ hab hb => ?_)
    have hunsized := (List.mem_filter.mp ha).2
    simpa using key_eq_positionKey hab (by simpa using hb) (by simpa using hunsized)
  -- A position is no size, so it is not lost with the sizes.
  have hkept : unsized.filter (fun o => key o = positionKey) =
      merged.filter fun o => key o = positionKey := by
    rw [List.filter_filter]
    refine List.filter_congr fun o _ => ?_
    by_cases hkey : key o = positionKey
    · have hdistinct : positionKey ≠ sizeKey := by decide
      simp [hkey, hdistinct]
    · simp [hkey]
  refine ⟨unsized.filter fun o => !decide (key o = positionKey), ?_, fun o ho => ?_⟩
  · rw [← filter_key_mergeOptions, ← filter_key_mergeOptions]
    change merged = _ ++ (merged.filter _ ++ _)
    rw [← hkept, ← hpositions]
    exact hsizes
  · obtain ⟨hunsized, hunplaced⟩ := List.mem_filter.mp ho
    exact ⟨by simpa using (List.mem_filter.mp hunsized).2, by simpa using hunplaced⟩

/-! ## The statements of options -/

namespace Script

/-- The position a video option sets. -/
def videoPosition? : VideoOption → Option Position
  | .position p => some p
  | _ => none

/-- The options of the two keys set a size or a position, and no others. -/
theorem isSetting_video :
    IsSetting VideoOption.size? sizeKey ∧ IsSetting videoPosition? positionKey := by
  have hsize (o : VideoOption) : o.size?.isSome = decide (key o = sizeKey) := by cases o <;> rfl
  have hposition (o : VideoOption) :
      (videoPosition? o).isSome = decide (key o = positionKey) := by cases o <;> rfl
  exact ⟨fun o => by rw [hsize, decide_eq_true_iff],
    fun o => by rw [hposition, decide_eq_true_iff]⟩

/-- Resizes a clip to a size, if there is one. -/
def resizing (clip title : String) (size : Option PixelSize) : List (Statement LetterEffect) :=
  size.toList.flatMap fun s => [.comment title, .adjust clip (.resize (.size s))]

/-- Places a clip at a point, if there is one. -/
def placing (clip : String) (point : Option Point) : List (Statement LetterEffect) :=
  point.toList.flatMap fun p => [.comment "Apply position effect", .adjust clip (.position p)]

variable (clip : String) (canvas : Canvas) (own shared : List VideoOption)

/-- The size that alignment uses is the first candidate for a size. -/
theorem optionSize_mergeOptions :
    optionSize (mergeOptions own shared) = (own ++ shared).findSome? VideoOption.size? := by
  rw [optionSize, ← List.head?_filterMap,
    isSetting_video.1.filterMap_perm (List.Perm.refl (mergeOptions own shared))]
  cases (own ++ shared).findSome? VideoOption.size? <;> rfl

/-- The first candidate for a size resizes the clip. -/
theorem exists_flatMap_eq_resizing (options : List VideoOption) :
    ∃ title, ((own ++ shared).find? fun o => key o = sizeKey).toList.flatMap
      (videoOptionStatements clip canvas options) =
        resizing clip title ((own ++ shared).findSome? VideoOption.size?) := by
  rw [isSetting_video.1.findSome?_eq]
  cases hfirst : (own ++ shared).find? fun o => key o = sizeKey with
  | none => exact ⟨"", rfl⟩
  | some o =>
    have hkey : key o = sizeKey := by simpa using List.find?_some hfirst
    cases o with
    | size s => exact ⟨_, rfl⟩
    | resolution preset => exact ⟨_, rfl⟩
    | _ => cases hkey

/-- The first candidate for a position places the clip by the size that is given. -/
theorem flatMap_eq_placing (options : List VideoOption) :
    ((own ++ shared).find? fun o => key o = positionKey).toList.flatMap
      (videoOptionStatements clip canvas options) =
        placing clip (((own ++ shared).findSome? videoPosition?).map fun q =>
          q.place canvas (optionSize options) .corner) := by
  rw [isSetting_video.2.findSome?_eq]
  cases hfirst : (own ++ shared).find? fun o => key o = positionKey with
  | none => rfl
  | some o =>
    have hkey : key o = positionKey := by simpa using List.find?_some hfirst
    cases o with
    | position q => rfl
    | _ => cases hkey

/-- The statements of merged options resize the clip to the first candidate for a size, place it by
the first candidate for a position, and apply options of other kinds. -/
theorem exists_videoOptionStatements_eq :
    ∃ title, ∃ others : List VideoOption, (mergeOptions own shared).flatMap
        (videoOptionStatements clip canvas (mergeOptions own shared)) =
          resizing clip title ((own ++ shared).findSome? VideoOption.size?) ++
            (placing clip (((own ++ shared).findSome? videoPosition?).map fun q =>
              q.place canvas ((own ++ shared).findSome? VideoOption.size?) .corner) ++
            others.flatMap (videoOptionStatements clip canvas (mergeOptions own shared))) ∧
      ∀ o ∈ others, key o ≠ sizeKey ∧ key o ≠ positionKey := by
  obtain ⟨others, hmerged, hothers⟩ := exists_mergeOptions_eq own shared
  obtain ⟨title, hresizing⟩ :=
    exists_flatMap_eq_resizing clip canvas own shared (mergeOptions own shared)
  refine ⟨title, others, ?_, hothers⟩
  rw [← optionSize_mergeOptions, ← flatMap_eq_placing, optionSize_mergeOptions, ← hresizing,
    ← List.flatMap_append, ← List.flatMap_append, ← hmerged]

/-! ## The lines of options -/

/-- The lines that resize a clip to a size, if there is one. -/
def resizingLines (clip title : String) (size : Option PixelSize) : List Line :=
  size.toList.flatMap fun s =>
    [flat s!"# {title}",
      flat s!"{clip} = {clip}.resized(({pixelsLiteral s.width}, {pixelsLiteral s.height}))"]

/-- The lines that place a clip at a point, if there is one. -/
def placingLines (clip : String) (point : Option Point) : List Line :=
  point.toList.flatMap fun p =>
    [flat "# Apply position effect",
      flat s!"{clip} = {clip}.with_position(({coordinateLiteral p.x}, {coordinateLiteral p.y}))"]

/-- The variables that the effects of videos are kept in. -/
def videoEffectVariables : List String :=
  ["multiply_effect", "resize_effect", "lum_contrast_effect", "painting_effect", "rotate_effect",
    "fade_in", "fade_out"]

/-- A line that sets neither the size nor the place of a clip: a comment, a new effect, or an effect
or an opacity for the clip. An effect that scales the clip by a factor sets neither. -/
inductive Line.Unmoving (clip : String) : Line → Prop
  | comment (title : String) : Unmoving clip (flat s!"# {title}")
  | prepare {effect : String} (h : effect ∈ videoEffectVariables) (call : String) :
      Unmoving clip (flat s!"{effect} = moviepy.video.fx.{call}")
  | apply {effect : String} (h : effect ∈ videoEffectVariables) :
      Unmoving clip (flat s!"{clip} = {effect}.apply({clip})")
  | opacity (value : String) : Unmoving clip (flat s!"{clip} = {clip}.with_opacity({value})")

/-- What resizes a clip is written with the width and the height. -/
theorem lines_resizing (title : String) (size : Option PixelSize) :
    (resizing clip title size).flatMap Statement.lines = resizingLines clip title size := by
  cases size with
  | none => rfl
  | some s =>
    have htext : s!"{clip} = {clip}.resized({sizeLiteral s})" =
        s!"{clip} = {clip}.resized(({pixelsLiteral s.width}, {pixelsLiteral s.height}))" := by
      apply String.toList_inj.mp
      simp [sizeLiteral, toString_text]
    exact congrArg (fun text => [flat s!"# {title}", flat text]) htext

/-- What places a clip is written with both coordinates. -/
theorem lines_placing (point : Option Point) :
    (placing clip point).flatMap Statement.lines = placingLines clip point := by
  cases point with
  | none => rfl
  | some p =>
    have htext : s!"{clip} = {clip}.with_position({pointLiteral p})" =
        s!"{clip} = {clip}.with_position(({coordinateLiteral p.x}, {coordinateLiteral p.y}))" := by
      apply String.toList_inj.mp
      simp [pointLiteral, toString_text]
    exact congrArg (fun text => [flat "# Apply position effect", flat text]) htext

/-- What a text starts with, the text starts with when something follows it. -/
theorem isPrefix_toList_append {cs : List Char} {s t : String} (h : cs <+: s.toList) :
    cs <+: (s ++ t).toList := by
  rw [String.toList_append]
  exact h.trans (List.prefix_append _ _)

/-- An effect of videos that is made and applied sets neither the size nor the place of the clip. -/
theorem unmoving_effectStatements {effect : ClipEffect}
    (hholder : effect.holder ∈ videoEffectVariables)
    (hcall : "moviepy.video.fx.".toList <+: effect.expression.toList) (clip title : String)
    {l : Line} (hl : l ∈ (effectStatements clip title effect).flatMap Statement.lines) :
    l.Unmoving clip := by
  have hlines : (effectStatements clip title effect).flatMap Statement.lines =
      [flat s!"# {title}", flat s!"{effect.holder} = {effect.expression}",
        flat s!"{clip} = {effect.holder}.apply({clip})"] := rfl
  rw [hlines, List.mem_cons, List.mem_cons, List.mem_singleton] at hl
  rcases hl with rfl | rfl | rfl
  · exact .comment title
  · obtain ⟨call, hcall⟩ := hcall
    have htext : s!"{effect.holder} = {effect.expression}" =
        s!"{effect.holder} = moviepy.video.fx.{String.ofList call}" := by
      apply String.toList_inj.mp
      simp [toString_text, ← hcall]
    rw [htext]
    exact .prepare hholder _
  · exact .apply hholder

/-- Other options set neither the size nor the place of the clip. -/
theorem unmoving_of_mem_lines {clip : String} {canvas : Canvas} {options : List VideoOption}
    {o : VideoOption} (hsize : key o ≠ sizeKey) (hposition : key o ≠ positionKey) {l : Line}
    (hl : l ∈ (videoOptionStatements clip canvas options o).flatMap Statement.lines) :
    l.Unmoving clip := by
  cases o with
  | size x | resolution x => exact absurd rfl hsize
  | position q => exact absurd rfl hposition
  | transition t => cases t <;> exact unmoving_effectStatements (by decide) (by decide) clip _ hl
  | opacity x =>
    have hlines : (videoOptionStatements clip canvas options (.opacity x)).flatMap Statement.lines =
        [flat ("# " ++ "Apply opacity effect"),
          flat s!"{clip} = {clip}.with_opacity({numberLiteral x})"] := rfl
    rw [hlines, List.mem_cons, List.mem_singleton] at hl
    rcases hl with rfl | rfl
    · exact .comment _
    · exact .opacity _
  | brightness x | scale x | contrast x | saturation x | rotation x =>
    refine unmoving_effectStatements ?_ ?_ clip _ hl
    · simp [ClipEffect.holder, videoEffectVariables]
    · exact isPrefix_toList_append (isPrefix_toList_append (by decide))

/-- The options of a clip are applied so that its alignment fits the size they give: the clip is
resized to this size, then it is placed by it, and what follows sets neither again. -/
structure Arranged (clip : String) (canvas : Canvas) (size : Option PixelSize)
    (position : Option Position) (ls : List Line) : Prop where
  parts : ∃ title others, ls = resizingLines clip title size ++
      (placingLines clip (position.map fun q => q.place canvas size .corner) ++ others) ∧
    ∀ l ∈ others, l.Unmoving clip
  /-- Aligned to the right, the clip ends at the right edge; without a size it starts there. -/
  right : ∀ q ∈ position, q.x = some (.aligned .right) →
    (q.place canvas size .corner).x =
      .pixels (canvas.width.toNat - (size.map fun s => (s.width.toNat : ℤ)).getD 0)
  /-- Aligned to the bottom, the clip ends at the lower edge; without a size it starts there. -/
  bottom : ∀ q ∈ position, q.y = some (.aligned .bottom) →
    (q.place canvas size .corner).y =
      .pixels (canvas.height.toNat - (size.map fun s => (s.height.toNat : ℤ)).getD 0)

/-- The lines of merged options are arranged by the first candidates. -/
theorem arranged_mergeOptions :
    Arranged clip canvas ((own ++ shared).findSome? VideoOption.size?)
      ((own ++ shared).findSome? videoPosition?)
      (((mergeOptions own shared).flatMap
        (videoOptionStatements clip canvas (mergeOptions own shared))).flatMap
          Statement.lines) where
  parts := by
    obtain ⟨title, others, hparts, hothers⟩ :=
      exists_videoOptionStatements_eq clip canvas own shared
    refine ⟨title, (others.flatMap (videoOptionStatements clip canvas
      (mergeOptions own shared))).flatMap Statement.lines, ?_, fun l hl => ?_⟩
    · rw [hparts, List.flatMap_append, List.flatMap_append, lines_resizing, lines_placing]
    · rw [List.flatMap_assoc] at hl
      obtain ⟨o, ho, hl⟩ := List.mem_flatMap.mp hl
      exact unmoving_of_mem_lines (hothers o ho).1 (hothers o ho).2 hl
  right := by
    intro q _ hx
    cases (own ++ shared).findSome? VideoOption.size? <;>
      simp [Position.place, hx, AxisPosition.across]
  bottom := by
    intro q _ hy
    cases (own ++ shared).findSome? VideoOption.size? <;>
      simp [Position.place, hy, AxisPosition.down]

end Script

/-! ## Videos of resolved projects -/

/-- The options of a video or a piece of one; nothing for other elements. -/
def Element.videoOptions : Element → List VideoOption
  | .video v => v.options
  | .videoExtract x => x.options
  | _ => []

/-- The lines that load a video or cut a piece of one; nothing for other elements. -/
def Element.openingLines : Element → List Line
  | .video v =>
    [flat "# Load the video clip", flat s!"{v.name} = moviepy.VideoFileClip({textLiteral v.path})"]
  | .videoExtract x =>
    [flat "# Extract a subclip from the video",
      flat s!"{x.name} = {x.source}.subclipped({numberLiteral x.start.toFloat}, {numberLiteral x.stop.toFloat})"]
  | _ => []

namespace Project

/-- The options that a video may take, in the order of their precedence: its own ones, and those of
the groups of videos that name it, in the order of the project. -/
def videoCandidates (p : Project) (e : Element) : List VideoOption :=
  e.videoOptions ++ p.groups.flatMap (OptionGroup.optionsFor OptionGroup.video? e.name)

variable {p : Project} {r : Resolved}

/-- A broadcast of a recording and of a piece of it. The piece is aligned to the lower right corner,
and its groups have a named size and a size in pixels. -/
def broadcast : Project where
  outputName := "broadcast"
  elements :=
    [.video ⟨"match", "clips/match.mp4", some ⟨1920, 1080⟩, []⟩,
      .videoExtract ⟨"replay", "match", .read "01:10", .read "01:15",
        [.scale 0.5, .position ⟨some (.aligned .right), some (.aligned .bottom)⟩]⟩]
  groups :=
    [.video ⟨"inset", ["replay"], [.brightness 1.5, .resolution .webcam]⟩,
      .video ⟨"frames", ["replay"], [.size ⟨320, 240⟩, .position ⟨some (.pixels 10), none⟩]⟩]
  timeline :=
    [⟨"#1", "match", .implicit, none, none⟩, ⟨"#2", "replay", .implicit, none, some (.above "#1")⟩]

end Project

end Montage
