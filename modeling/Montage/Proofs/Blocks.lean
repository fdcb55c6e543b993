import Mathlib.Data.List.Chain
import Montage.Proofs.Lines

/-!
# Blocks of lines

A line that ends in a colon or an opening bracket has lines below it that are one level deeper, and
no other line has. Lines with this property form blocks; blocks one below the other form blocks
again, and so do the heading of a block and what is nested in it. The lines of a statement are put
together in these two ways, so those of a script form blocks as well, once its variables are names
and no branch of a choice is empty.
-/

namespace Montage.Script

/-! ## Blocks -/

/-- Whether a line has deeper lines below it. -/
def Line.opens (l : Line) : Bool :=
  opensBlock l.text.toList

/-- Whether a line may stand below another one: one level deeper if that one opens a block, and not
deeper otherwise. -/
def Line.Below (upper lower : Line) : Prop :=
  if upper.opens then lower.level = upper.level + 1 else lower.level ≤ upper.level

/-- The lines that are not empty. -/
def shown (ls : List Line) : List Line :=
  ls.filter fun l => l.text ≠ ""

/-- Sound lines that form whole blocks at a depth. Empty lines may stand anywhere. -/
structure Blocks (depth : ℕ) (ls : List Line) : Prop where
  sound : ∀ l ∈ ls, l.Sound
  chain : (shown ls).IsChain Line.Below
  first : ∀ l ∈ (shown ls).head?, l.level = depth
  last : ∀ l ∈ (shown ls).getLast?, l.opens = false
  deep : ∀ l ∈ shown ls, depth ≤ l.level

/-- What is shown of two parts is shown of them one after the other. -/
@[simp] theorem shown_append (xs ys : List Line) : shown (xs ++ ys) = shown xs ++ shown ys :=
  List.filter_append ..

/-- Deeper lines are shown if they are shown where they were. -/
@[simp] theorem shown_deeper (ls : List Line) : shown (deeper ls) = deeper (shown ls) := by
  simp [shown, deeper, atDepth, List.filter_map, Function.comp_def]

/-- A line that starts visibly is shown. -/
theorem shown_cons {text : String} (h : Begun text) (level : ℕ) (ls : List Line) :
    shown (⟨level, text⟩ :: ls) = ⟨level, text⟩ :: shown ls := by
  simp [shown, ne_empty_of_startsVisibly h.visible]

/-- Lines after one that starts visibly show something. -/
theorem shown_cons_ne_nil {text : String} (h : Begun text) (level : ℕ) (ls : List Line) :
    shown (⟨level, text⟩ :: ls) ≠ [] := by
  rw [shown_cons h]
  exact List.cons_ne_nil _ _

/-- Lines that show something do so one level deeper. -/
theorem shown_deeper_ne_nil {ls : List Line} (h : shown ls ≠ []) : shown (deeper ls) ≠ [] := by
  rw [shown_deeper, deeper, atDepth, ne_eq, List.map_eq_nil_iff]
  exact h

namespace Blocks

variable {depth : ℕ} {xs ys ls : List Line} {text : String}

/-- No lines form blocks at any depth. -/
theorem nil (depth : ℕ) : Blocks depth [] :=
  ⟨by simp, by simp [shown], by simp [shown], by simp [shown], by simp [shown]⟩

/-- Blocks one below the other form blocks. -/
theorem append (hx : Blocks depth xs) (hy : Blocks depth ys) : Blocks depth (xs ++ ys) where
  sound := List.forall_mem_append.mpr ⟨hx.sound, hy.sound⟩
  chain := by
    rw [shown_append, List.isChain_append]
    refine ⟨hx.chain, hy.chain, fun upper hupper lower hlower => ?_⟩
    -- The upper blocks are complete, and the lower ones start at the depth of all.
    rw [Line.Below, hx.last upper hupper, hy.first lower hlower]
    exact hx.deep upper (List.mem_of_getLast? hupper)
  first := by
    rw [shown_append, List.head?_append]
    cases hhead : (shown xs).head? with
    | none => exact hy.first
    | some l => exact fun l' hl' => hx.first l' (hhead ▸ hl')
  last := by
    rw [shown_append, List.getLast?_append]
    cases hlast : (shown ys).getLast? with
    | none => exact hx.last
    | some l => exact fun l' hl' => hy.last l' (hlast ▸ hl')
  deep := by
    rw [shown_append]
    exact List.forall_mem_append.mpr ⟨hx.deep, hy.deep⟩

/-- Blocks for each member of a list form blocks. -/
theorem flatMap {α : Type} {f : α → List Line} {as : List α} (h : ∀ a ∈ as, Blocks depth (f a)) :
    Blocks depth (as.flatMap f) := by
  induction as with
  | nil => exact nil depth
  | cons a as ih =>
    obtain ⟨ha, has⟩ := List.forall_mem_cons.mp h
    exact ha.append (ih has)

/-- Blocks stay blocks one level deeper. -/
theorem deeper (h : Blocks depth ls) : Blocks (depth + 1) (deeper ls) where
  sound := by
    intro l hl
    obtain ⟨l', hl', rfl⟩ := List.mem_map.mp hl
    exact ⟨(h.sound l' hl').plain, (h.sound l' hl').visible⟩
  chain := by
    rw [shown_deeper, Script.deeper, atDepth, List.isChain_map]
    refine h.chain.imp fun upper lower hbelow => ?_
    change if upper.opens then lower.level + 1 = upper.level + 1 + 1
      else lower.level + 1 ≤ upper.level + 1
    simpa [Line.Below] using hbelow
  first := by
    rw [shown_deeper, Script.deeper, atDepth, List.head?_map]
    intro l hl
    obtain ⟨l', hl', rfl⟩ := Option.map_eq_some_iff.mp hl
    exact congrArg (· + 1) (h.first l' hl')
  last := by
    rw [shown_deeper, Script.deeper, atDepth, List.getLast?_map]
    intro l hl
    obtain ⟨l', hl', rfl⟩ := Option.map_eq_some_iff.mp hl
    exact h.last l' hl'
  deep := by
    intro l hl
    rw [shown_deeper] at hl
    obtain ⟨l', hl', rfl⟩ := List.mem_map.mp hl
    exact Nat.succ_le_succ (h.deep l' hl')

/-- An empty line may stand in front of blocks. -/
theorem blank (h : Blocks depth ls) : Blocks depth (flat "" :: ls) where
  sound := List.forall_mem_cons.mpr ⟨⟨by simp [flat, Plain], by simp [flat]⟩, h.sound⟩
  chain := h.chain
  first := h.first
  last := h.last
  deep := h.deep

/-- A line that opens no block may stand in front of blocks. -/
theorem line (htext : Whole text) (h : Blocks depth ls) : Blocks depth (⟨depth, text⟩ :: ls) := by
  have hone : shown [⟨depth, text⟩] = [⟨depth, text⟩] := shown_cons htext.toBegun depth []
  have hline : Blocks depth [⟨depth, text⟩] := by
    refine ⟨?_, ?_, ?_, ?_, ?_⟩
    · exact List.forall_mem_singleton.mpr ⟨htext.plain, fun _ => htext.visible⟩
    · rw [hone]
      exact .singleton _
    · rw [hone]
      simp
    · rw [hone]
      rintro l ⟨⟩
      exact htext.closed
    · rw [hone]
      simp
  exact hline.append h

/-- The heading of a block and what is nested in it form a block. -/
theorem nest (htext : Heading text) (h : Blocks (depth + 1) ls) (hne : shown ls ≠ []) :
    Blocks depth (⟨depth, text⟩ :: ls) := by
  have hshown := shown_cons htext.toBegun depth ls
  refine ⟨?_, ?_, ?_, ?_, ?_⟩
  · exact List.forall_mem_cons.mpr ⟨⟨htext.plain, fun _ => htext.visible⟩, h.sound⟩
  · rw [hshown, List.isChain_cons]
    refine ⟨fun lower hlower => ?_, h.chain⟩
    have hopens : (⟨depth, text⟩ : Line).opens = true := htext.opens
    rw [Line.Below, if_pos hopens]
    exact h.first lower hlower
  · rw [hshown]
    simp
  · rw [hshown, List.getLast?_cons_of_ne_nil hne]
    exact h.last
  · rw [hshown, List.forall_mem_cons]
    exact ⟨Nat.le_refl _, fun l hl => Nat.le_of_succ_le (h.deep l hl)⟩

/-- A block of a heading and some lines may stand in front of blocks. -/
theorem block (n : ℕ) {first : String} (htext : Heading text) (hfirst : Begun first)
    (hbody : Blocks (depth + 1) (⟨depth + 1, first⟩ :: ls.take n)) (h : Blocks depth (ls.drop n)) :
    Blocks depth (⟨depth, text⟩ :: ⟨depth + 1, first⟩ :: ls) := by
  have hblock := (hbody.nest htext (shown_cons_ne_nil hfirst _ _)).append h
  rwa [List.cons_append, List.cons_append, List.take_append_drop] at hblock

end Blocks

/-- The functions that letters are moved with form blocks. -/
theorem blocks_letterHelpers : Blocks 0 (layout 0 letterHelpersDefinition) := by
  refine .line (whole_ofList ?_) <| .line (whole_ofList ?_) <| .line (whole_ofList ?_) <| .blank <|
    .line (whole_ofList ?_) <| .blank <|
    .block 1 (heading_ofList ?_) (begun_ofList ?_)
      (.line (whole_ofList ?_) <| .line (whole_ofList ?_) <| .nil 1) <| .blank <|
    .block 6 (heading_ofList ?_) (begun_ofList ?_)
      (.line (whole_ofList ?_) <|
        .block 3 (heading_ofList ?_) (begun_ofList ?_)
          (.line (whole_ofList ?_) <| .line (whole_ofList ?_) <| .line (whole_ofList ?_) <|
            .line (whole_ofList ?_) <| .nil 2) <|
        .line (whole_ofList ?_) <| .nil 1) <| .blank <| .nil 0
  all_goals decide

/-- The function that says where letters are forms blocks. -/
theorem blocks_letterMotion (effect : LetterEffect) : Blocks 0 (layout 0 effect.definition) := by
  cases effect with
  | grouping =>
    refine .block 5 (heading_ofList ?_) (begun_ofList ?_)
      (.line (whole_ofList ?_) <| .line (whole_ofList ?_) <| .line (whole_ofList ?_) <|
        .block 0 (heading_ofList ?_) (begun_ofList ?_) (.line (whole_ofList ?_) <| .nil 2) <|
        .line (whole_ofList ?_) <| .nil 1) <| .blank <| .nil 0
    all_goals decide
  | falling =>
    refine .block 2 (heading_ofList ?_) (begun_ofList ?_)
      (.line (whole_ofList ?_) <| .line (whole_ofList ?_) <| .line (whole_ofList ?_) <| .nil 1) <|
      .blank <| .nil 0
    all_goals decide

/-! ## Well-formed statements -/

/-- A choice without an empty branch. -/
def Choice.Filled : Choice → Prop
  | plain steps => steps ≠ []
  | test _ yes no _ => yes.Filled ∧ no.Filled

/-- A start whose clip is a name. -/
def StartExpression.WellFormed {T : Type} : StartExpression T → Prop
  | instant _ => True
  | relative clip _ _ => IsName clip

/-- A statement whose variables are names. A comment stays on its line, and a choice has no empty
branch. -/
def Statement.WellFormed : Statement LetterEffect → Prop
  | comment text => Whole text
  | loadVideo clip _ => IsName clip
  | loadAudio clip _ => IsName clip
  | cut clip source _ _ => IsName clip ∧ IsName source
  | adjust clip _ => IsName clip
  | choose clip _ choice => IsName clip ∧ choice.Filled
  | apply clip _ => IsName clip
  | opacity clip _ => IsName clip
  | textClip clip _ _ => IsName clip
  | findLetters clip => IsName clip
  | animate clip _ _ _ _ => IsName clip
  | entry s => IsName s.clip ∧ IsName s.element ∧ ∀ e ∈ s.start, e.WellFormed
  | composeVideo clips _ => ∀ clip ∈ clips, IsName clip
  | composeAudio tracks => ∀ track ∈ tracks, IsName track.clip
  | _ => True

/-- A whole line is a block. -/
theorem Whole.blocks {text : String} (h : Whole text) : Blocks 0 [flat text] :=
  .line h (.nil 0)

section Lines

variable {clip : String}

/-- An adjustment is a line of its own. -/
theorem Adjustment.whole_text (h : IsName clip) (a : Adjustment) : Whole (a.text clip) := by
  cases a with
  | resize r =>
    have hr : Plain r.text := by cases r <;> simp +decide [Resize.text, toString_text]
    exact h.whole.words (by decide) |>.append h.plain |>.words (by decide) |>.append hr
      |>.close (by decide)
  | position p =>
    exact h.whole.words (by decide) |>.append h.plain |>.words (by decide)
      |>.append (plain_pointLiteral p) |>.close (by decide)

/-- Adjustments one below the other form blocks. -/
theorem blocks_adjustments (h : IsName clip) (steps : List Adjustment) :
    Blocks 0 (adjustmentLines clip steps) := by
  rw [adjustmentLines, List.map_eq_flatMap]
  exact Blocks.flatMap fun a _ => (a.whole_text h).blocks

/-- The condition of a choice is the heading of a block. -/
theorem RatioTest.heading_text (h : IsName clip) (canvas : Canvas) (t : RatioTest) :
    Heading s!"if {t.text clip canvas}:" := by
  have ht : Plain (t.text clip canvas) := by
    cases t <;> simp +decide [RatioTest.text, toString_text, h.plain]
  exact ((begun_ofList (by decide)).append ht).heading (by decide)

/-- A choice without an empty branch has a line. -/
theorem Choice.Filled.shown_lines {choice : Choice} (hfilled : choice.Filled) (h : IsName clip)
    (canvas : Canvas) : shown (choice.lines clip canvas) ≠ [] := by
  cases choice with
  | plain steps =>
    obtain ⟨a, rest, rfl⟩ := List.exists_cons_of_ne_nil hfilled
    rw [Choice.lines_plain]
    exact shown_cons_ne_nil (a.whole_text h).toBegun 0 _
  | test t yes no after =>
    rw [Choice.lines_test]
    exact shown_cons_ne_nil (t.heading_text h canvas).toBegun 0 _

/-- A choice without an empty branch forms blocks. The induction is on the branches; each is nested
below its condition. -/
theorem Choice.Filled.blocks {choice : Choice} (hfilled : choice.Filled) (h : IsName clip)
    (canvas : Canvas) : Blocks 0 (choice.lines clip canvas) := by
  induction choice with
  | plain steps =>
    rw [Choice.lines_plain]
    exact blocks_adjustments h steps
  | test t yes no after ihyes ihno =>
    obtain ⟨hyes, hno⟩ := hfilled
    have hthen := (ihyes hyes).deeper.nest (t.heading_text h canvas)
      (shown_deeper_ne_nil (hyes.shown_lines h canvas))
    have helse : Blocks 0 (flat "else:" :: deeper (no.lines clip canvas)) :=
      (ihno hno).deeper.nest (heading_ofList (by decide))
        (shown_deeper_ne_nil (hno.shown_lines h canvas))
    rw [Choice.lines_test]
    exact (hthen.append helse).append (blocks_adjustments h after)

/-- What makes an effect is a line of its own. -/
theorem ClipEffect.whole_expression (effect : ClipEffect) : Whole effect.expression := by
  cases effect with
  | brightness x | scale x | saturation x | contrast x | rotation x | audioFadeIn x
  | audioFadeOut x =>
    exact (plain_numberLiteral x).whole (by decide) (by decide)
  | volume x =>
    exact (begun_ofList (by decide)).append (plain_numberLiteral x) |>.words (by decide)
      |>.append (plain_numberLiteral x) |>.close (by decide)
  | stereoVolume l r =>
    exact (begun_ofList (by decide)).append (plain_numberLiteral l) |>.words (by decide)
      |>.append (plain_numberLiteral r) |>.close (by decide)
  | crossFadeIn | crossFadeOut | normalize => exact whole_ofList (by decide)

/-- Effects are kept in variables. -/
theorem ClipEffect.whole_holder (effect : ClipEffect) : Whole effect.holder := by
  cases effect <;> exact whole_ofList (by decide)

/-- The arguments of a text clip form blocks, whatever the text, its font and its colours. -/
theorem TextArguments.blocks_lines (a : TextArguments) : Blocks 0 a.lines := by
  have hbackground : Blocks 0
      (a.background.toList.map fun color => flat s!"bg_color={textLiteral color},") := by
    rw [List.map_eq_flatMap]
    exact Blocks.flatMap fun color _ =>
      ((plain_textLiteral color).whole (by decide) (by decide)).blocks
  have htext : Whole s!"text={textLiteral a.text}," :=
    (plain_textLiteral a.text).whole (by decide) (by decide)
  rw [a.lines_eq]
  refine (htext.blocks.append hbackground).append ?_
  refine .line ((plain_textLiteral a.font).whole ?_ ?_) <|
    .line ((plain_pixelsLiteral a.fontSize).whole ?_ ?_) <|
    .line ((plain_textLiteral a.color).whole ?_ ?_) <|
    .line ((plain_textLiteral a.alignment.text).whole ?_ ?_) <|
    .line ((plain_sizeLiteral a.size).whole ?_ ?_) <| .nil 0
  all_goals decide

/-- A well-formed start is plain. -/
theorem StartExpression.WellFormed.plain_text {e : StartExpression Float} (h : e.WellFormed) :
    Plain e.text := by
  cases e with
  | instant t => exact plain_numberLiteral t
  | relative clip anchor shift =>
    have hclip : IsName clip := h
    have hanchor : Plain (anchorAttribute anchor) := by cases anchor <;> decide
    cases shift with
    | none => exact ((hclip.whole.words (by decide)).append hanchor).plain
    | some shift =>
      obtain ⟨sign, t⟩ := shift
      have hsign : Plain (toString sign.symbol) := by cases sign <;> decide
      exact hclip.whole.words (by decide) |>.append hanchor |>.words (by decide) |>.append hsign
        |>.words (by decide) |>.append (plain_numberLiteral t) |>.plain

/-- The assignment of an entry is a line of its own. -/
theorem whole_entry {s : EntryStatement Float} (hclip : IsName s.clip) (helement : IsName s.element)
    (hstart : ∀ e ∈ s.start, e.WellFormed) : Whole s.text := by
  have hassigned : Whole (s.clip ++ " = " ++ s.element) :=
    (hclip.whole.words (by decide)).whole helement.whole
  have hnothing : Plain "" ∧ opensBlock "".toList = false := by decide
  have hduration (t : Float) : Whole s!".with_duration({numberLiteral t})" :=
    (plain_numberLiteral t).whole (by decide) (by decide)
  obtain ⟨clip, element, start, duration⟩ := s
  cases start with
  | none =>
    have hbegun := hassigned.append hnothing.1 hnothing.2
    cases duration with
    | none => exact hbegun.append hnothing.1 hnothing.2
    | some t => exact hbegun.whole (hduration t)
  | some e =>
    have hinstant : Whole s!".with_start({e.text})" :=
      (hstart e rfl).plain_text.whole (by decide) (by decide)
    have hbegun := hassigned.whole hinstant
    cases duration with
    | none => exact hbegun.append hnothing.1 hnothing.2
    | some t => exact hbegun.whole (hduration t)

/-- The clip of a text forms a block: its arguments are nested between the brackets. -/
theorem blocks_textClip (h : IsName clip) (arguments : TextArguments) (position : Point) :
    Blocks 0 (Statement.textClip clip arguments position).lines := by
  have hfirst : Begun s!"text={textLiteral arguments.text}," :=
    (begun_ofList (by decide)).append (plain_textLiteral arguments.text) |>.words (by decide)
  have hclose : Whole s!").with_position({pointLiteral position})" :=
    (plain_pointLiteral position).whole (by decide) (by decide)
  have hne : shown arguments.lines ≠ [] := by
    rw [arguments.lines_eq]
    exact shown_cons_ne_nil hfirst 0 _
  rw [Statement.lines_textClip]
  exact (arguments.blocks_lines.deeper.nest (h.whole.heading (by decide))
    (shown_deeper_ne_nil hne)).append hclose.blocks

/-- The animation of a clip forms a block. -/
theorem blocks_animate (h : IsName clip) (effect : LetterEffect) (canvas : Canvas)
    (duration : Float) (position : Point) :
    Blocks 0 (Statement.animate clip effect canvas duration position).lines := by
  have hname : Plain effect.name := by cases effect <;> decide
  have hletters : Plain (lettersVariable clip) := (h.whole.words (by decide)).plain
  have hmove : Whole s!"move_letters({lettersVariable clip}, {effect.name}, {clip})," :=
    (begun_ofList (by decide)).append hletters |>.words (by decide) |>.append hname
      |>.words (by decide) |>.append h.plain |>.close (by decide)
  have hsize : Whole s!"size={sizeLiteral canvas.size}," :=
    (plain_sizeLiteral canvas.size).whole (by decide) (by decide)
  have hclose : Whole
      s!").subclipped(0, {numberLiteral duration}).with_position({pointLiteral position})" :=
    (begun_ofList (by decide)).append (plain_numberLiteral duration) |>.words (by decide)
      |>.append (plain_pointLiteral position) |>.close (by decide)
  exact .block 1 (h.whole.heading (by decide)) hmove.toBegun (.line hmove <| .line hsize <| .nil 1)
    hclose.blocks

/-- The lines of a well-formed statement form blocks. -/
theorem Statement.WellFormed.blocks {s : Statement LetterEffect} (h : s.WellFormed) :
    Blocks 0 s.lines := by
  cases s with
  | importLibrary => exact (whole_ofList (by decide)).blocks
  | blank => exact .blank (.nil 0)
  | comment text => exact ((begun_ofList (by decide)).whole h).blocks
  | loadVideo clip path =>
    exact h.whole.words (by decide) |>.append (plain_textLiteral path) |>.close (by decide)
      |>.blocks
  | loadAudio clip path =>
    exact h.whole.words (by decide) |>.append (plain_textLiteral path) |>.close (by decide)
      |>.blocks
  | cut clip source start stop =>
    obtain ⟨hclip, hsource⟩ := h
    have hstart := plain_numberLiteral start.toFloat
    have hstop := plain_numberLiteral stop.toFloat
    exact hclip.whole.words (by decide) |>.append hsource.plain |>.words (by decide)
      |>.append hstart |>.words (by decide) |>.append hstop |>.close (by decide) |>.blocks
  | adjust clip a => exact (a.whole_text h).blocks
  | choose clip canvas choice => exact h.2.blocks h.1 canvas
  | prepare effect =>
    exact ((effect.whole_holder.words (by decide)).whole effect.whole_expression).blocks
  | apply clip effect =>
    have hholder := effect.whole_holder.plain
    exact h.whole.words (by decide) |>.append hholder |>.words (by decide) |>.append h.plain
      |>.close (by decide) |>.blocks
  | opacity clip value =>
    have hvalue := plain_numberLiteral value
    exact h.whole.words (by decide) |>.append h.plain |>.words (by decide) |>.append hvalue
      |>.close (by decide) |>.blocks
  | textClip clip arguments position => exact blocks_textClip h arguments position
  | letterHelpers => exact blocks_letterHelpers
  | letterMotion effect => exact blocks_letterMotion effect
  | findLetters clip =>
    have hletters : Begun (lettersVariable clip) := h.whole.words (by decide)
    exact hletters.words (by decide) |>.append h.plain |>.close (by decide) |>.blocks
  | animate clip effect canvas duration position =>
    exact blocks_animate h effect canvas duration position
  | entry s => exact (whole_entry h.1 h.2.1 h.2.2).blocks
  | composeVideo clips canvas =>
    have hclips : Plain (commas clips) := plain_commas fun clip hclip => (h clip hclip).plain
    exact (begun_ofList (by decide)).append hclips |>.words (by decide)
      |>.append (plain_sizeLiteral canvas.size) |>.close (by decide) |>.blocks
  | composeAudio tracks =>
    have htracks : Plain (commas (tracks.map Track.text)) := by
      apply plain_commas
      intro text htext
      obtain ⟨track, htrack, rfl⟩ := List.mem_map.mp htext
      unfold Track.text
      split <;> simp +decide [(h track htrack).plain]
    exact (htracks.whole (by decide) (by decide)).blocks
  | attachAudio => exact (whole_ofList (by decide)).blocks
  | exportFilm name => exact ((plain_textLiteral _).whole (by decide) (by decide)).blocks

end Lines

end Montage.Script
