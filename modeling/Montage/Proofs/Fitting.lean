import Mathlib.Algebra.Order.Field.Rat
import Mathlib.Algebra.Order.Field.Basic
import Mathlib.Data.Nat.Cast.Field
import Montage.Proofs.Lines
import Montage.Script.Clip

/-!
# Fitting clips to the canvas

A clip is fitted when the script is written if its frame is known, and when the script runs
otherwise. The writer multiplies lengths crosswise; the script divides them and compares the
quotient with that of the canvas, which is written in lowest terms. With exact arithmetic both come
to the same result. To say so, lines of a script are run: a line that ends in a colon is followed by
deeper lines, and those of one branch are executed.
-/

namespace Montage

/-- The exact quotient of a width and a height. -/
def aspectRatio (width height : UInt32) : ℚ :=
  width.toNat / height.toNat

/-! ## Comparing ratios -/

/-- A length that is not zero is positive. -/
theorem toNat_pos_of_ne_zero {n : UInt32} (h : n ≠ 0) : 0 < n.toNat :=
  Nat.pos_of_ne_zero fun hzero => h (UInt32.toNat_inj.mp hzero)

namespace Canvas

/-- Products of lengths are exact. -/
theorem toNat_product (width height : UInt32) :
    (product width height).toNat = width.toNat * height.toNat := by
  have hbound : width.toNat * height.toNat < 2 ^ 64 :=
    calc width.toNat * height.toNat < 2 ^ 32 * 2 ^ 32 :=
          Nat.mul_lt_mul'' width.toNat_lt height.toNat_lt
      _ = 2 ^ 64 := (Nat.pow_add 2 32 32).symm
  rw [product, UInt64.toNat_mul, UInt32.toNat_toUInt64, UInt32.toNat_toUInt64,
    Nat.mod_eq_of_lt hbound]

/-- A frame is fitted to the canvas as their ratios compare. -/
theorem fit_eq {canvas : Canvas} {frame : PixelSize} (hcanvas : canvas.height ≠ 0)
    (hframe : frame.height ≠ 0) :
    canvas.fit frame =
      if aspectRatio frame.width frame.height = aspectRatio canvas.width canvas.height then .exact
      else if aspectRatio canvas.width canvas.height < aspectRatio frame.width frame.height then
        .width
      else .height := by
  have hpos {n : UInt32} (h : n ≠ 0) : (0 : ℚ) < n.toNat :=
    Nat.cast_pos.mpr (toNat_pos_of_ne_zero h)
  have heq : product frame.width canvas.height = product canvas.width frame.height ↔
      aspectRatio frame.width frame.height = aspectRatio canvas.width canvas.height := by
    rw [← UInt64.toNat_inj, toNat_product, toNat_product, aspectRatio, aspectRatio,
      div_eq_div_iff (hpos hframe).ne' (hpos hcanvas).ne']
    exact_mod_cast Iff.rfl
  have hlt : product canvas.width frame.height < product frame.width canvas.height ↔
      aspectRatio canvas.width canvas.height < aspectRatio frame.width frame.height := by
    rw [UInt64.lt_iff_toNat_lt, toNat_product, toNat_product, aspectRatio, aspectRatio,
      div_lt_div_iff₀ (hpos hcanvas) (hpos hframe)]
    exact_mod_cast Iff.rfl
  simp only [fit, heq, hlt]

end Canvas

namespace Script

/-! ## The ratio of the canvas -/

/-- Repeated division ends with the greatest common divisor. -/
theorem toNat_commonDivisor (a b : UInt32) :
    (commonDivisor a b).toNat = Nat.gcd a.toNat b.toNat := by
  fun_induction commonDivisor a b with
  | case1 a => simp
  | case2 a b hb ih =>
    rw [ih, UInt32.toNat_mod, Nat.gcd_comm, ← Nat.gcd_rec, Nat.gcd_comm]

/-- The text of the ratio of two lengths is a quotient of two numbers in lowest terms. -/
theorem exists_ratioLiteral_eq (width : UInt32) {height : UInt32} (hheight : height ≠ 0) :
    ∃ a b : ℕ, ratioLiteral width height = Decimal.natText a ++ "/" ++ Decimal.natText b ∧
      a.Coprime b ∧ 0 < b ∧ (a / b : ℚ) = aspectRatio width height := by
  have hpos : 0 < height.toNat := toNat_pos_of_ne_zero hheight
  have hgcd : 0 < Nat.gcd width.toNat height.toNat := Nat.gcd_pos_of_pos_right _ hpos
  -- The height is not zero, so the divisor is not zero either and stands as it is.
  have hdivisor : (max (commonDivisor width height) 1).toNat =
      Nat.gcd width.toNat height.toNat := by
    have hone : 1 ≤ commonDivisor width height := by
      rwa [UInt32.le_iff_toNat_le, toNat_commonDivisor]
    change (if commonDivisor width height ≤ 1 then 1 else commonDivisor width height).toNat = _
    split
    · rename_i hle
      rw [← toNat_commonDivisor, UInt32.le_antisymm hle hone]
    · exact toNat_commonDivisor width height
  refine ⟨width.toNat / Nat.gcd width.toNat height.toNat,
    height.toNat / Nat.gcd width.toNat height.toNat, ?_, Nat.coprime_div_gcd_div_gcd hgcd, ?_, ?_⟩
  · rw [ratioLiteral, pixelsLiteral, pixelsLiteral, UInt32.toNat_div, UInt32.toNat_div, hdivisor]
    rfl
  · exact Nat.div_pos (Nat.gcd_le_right _ hpos) hgcd
  · rw [aspectRatio,
      Nat.cast_div_div_div_cancel_right (Nat.gcd_dvd_right _ _) (Nat.gcd_dvd_left _ _)]

/-- The value of a quotient of two numbers; nothing if the divisor is zero. -/
def quotient? (cs : List Char) : Option ℚ :=
  match Decimal.spanDigits cs with
  | (ds, '/' :: es) =>
    if ds = [] ∨ es = [] ∨ es.all Char.isDigit = false ∨ Decimal.value es = 0 then none
    else some (Decimal.value ds / Decimal.value es)
  | _ => none

/-- The text of the ratio of two lengths has their ratio as its value. -/
theorem quotient?_ratioLiteral (width : UInt32) {height : UInt32} (hheight : height ≠ 0) :
    quotient? (ratioLiteral width height).toList = some (aspectRatio width height) := by
  obtain ⟨a, b, htext, -, hb, hvalue⟩ := exists_ratioLiteral_eq width hheight
  have hsplit : Decimal.spanDigits (Decimal.digits a ++ '/' :: Decimal.digits b) =
      (Decimal.digits a, '/' :: Decimal.digits b) :=
    Decimal.spanDigits_append (fun _ => Decimal.isDigit_of_mem_digits)
      (by rintro c ⟨⟩; decide)
  have hdigits : (Decimal.digits b).all Char.isDigit = true := by
    simpa using fun _ => Decimal.isDigit_of_mem_digits
  have hchars : (ratioLiteral width height).toList =
      Decimal.digits a ++ '/' :: Decimal.digits b := by
    simp [htext, Decimal.natText]
  rw [hchars, quotient?, hsplit]
  simp [Decimal.digits_ne_nil, hdigits, Decimal.value_digits, hb.ne', hvalue]

/-! ## Conditions -/

/-- What a condition says about a clip with a frame. It compares the quotient of the two lengths of
the clip with another quotient; both are exact. -/
def condition? (clip : String) (frame : PixelSize) (text : List Char) : Option Bool :=
  if frame.height = 0 then none
  else
    let ratio := aspectRatio frame.width frame.height
    match text.dropPrefix? s!"{clip}.size[0] / {clip}.size[1] ".toList with
    | some ('=' :: '=' :: ' ' :: cs) => (quotient? cs).map fun q => ratio = q
    | some ('>' :: ' ' :: cs) => (quotient? cs).map fun q => q < ratio
    | _ => none

/-- How a test of ratios ends for a frame. -/
def RatioTest.outcome (canvas : Canvas) (frame : PixelSize) : RatioTest → Bool
  | equal => aspectRatio frame.width frame.height = aspectRatio canvas.width canvas.height
  | wider => aspectRatio canvas.width canvas.height < aspectRatio frame.width frame.height

/-- The condition of a test says how the test ends. -/
theorem condition?_text {canvas : Canvas} {frame : PixelSize} (hcanvas : canvas.height ≠ 0)
    (hframe : frame.height ≠ 0) (clip : String) (t : RatioTest) :
    condition? clip frame (t.text clip canvas).toList = some (t.outcome canvas frame) := by
  have hquotient := quotient?_ratioLiteral canvas.width hcanvas
  have hdrop (rest : List Char) :
      (s!"{clip}.size[0] / {clip}.size[1] ".toList ++ rest).dropPrefix?
        s!"{clip}.size[0] / {clip}.size[1] ".toList = some rest :=
    List.dropPrefix?_append_of_beq rest BEq.rfl
  cases t with
  | equal =>
    have htext : (RatioTest.equal.text clip canvas).toList =
        s!"{clip}.size[0] / {clip}.size[1] ".toList ++
          '=' :: '=' :: ' ' :: (ratioLiteral canvas.width canvas.height).toList := by
      simp [RatioTest.text, toString_text]
    rw [htext, condition?, if_neg hframe, hdrop]
    simp [hquotient, RatioTest.outcome]
  | wider =>
    have htext : (RatioTest.wider.text clip canvas).toList =
        s!"{clip}.size[0] / {clip}.size[1] ".toList ++
          '>' :: ' ' :: (ratioLiteral canvas.width canvas.height).toList := by
      simp [RatioTest.text, toString_text]
    rw [htext, condition?, if_neg hframe, hdrop]
    simp [hquotient, RatioTest.outcome]

/-! ## Running lines -/

/-- Whether a line is a comment. -/
def isComment (text : String) : Bool :=
  text.toList.head? = some '#'

/-- What some lines do, line by line. -/
def instructions (ls : List Line) : List String :=
  (ls.map Line.text).filter fun text => !isComment text

/-- What stands in front of the colon of a line that opens a block. -/
def heading? (text : String) : Option (List Char) :=
  if text.toList.getLast? = some ':' then some text.toList.dropLast else none

/-- The lines at the front that are deeper than a depth. -/
def blockBelow (depth : ℕ) (ls : List Line) : List Line :=
  ls.takeWhile fun l => depth < l.level

/-- What follows the lines at the front that are deeper than a depth. -/
def afterBlock (depth : ℕ) (ls : List Line) : List Line :=
  ls.dropWhile fun l => depth < l.level

/-- A block is no longer than what it is taken from. -/
theorem length_blockBelow_le (depth : ℕ) (ls : List Line) :
    (blockBelow depth ls).length ≤ ls.length :=
  (List.takeWhile_sublist _).length_le

/-- What follows a block is no longer than what it is taken from. -/
theorem length_afterBlock_le (depth : ℕ) (ls : List Line) :
    (afterBlock depth ls).length ≤ ls.length :=
  (List.dropWhile_sublist _).length_le

/-- Runs lines of a depth after some instructions, and gives all instructions that are executed. A
condition has a branch below it and another one below the word that follows; the lines of the branch
that applies are run. What conditions say is known as long as nothing is done to the clip. -/
def runLines (holds? : List Char → Option Bool) (depth : ℕ) (done : List String) :
    List Line → Option (List String)
  | [] => some done
  | l :: ls =>
    if l.level ≠ depth then none
    else
      match heading? l.text with
      | none => runLines holds? depth (done ++ instructions [l]) ls
      | some ('i' :: 'f' :: ' ' :: condition) =>
        match hrest : afterBlock depth ls with
        | [] => none
        | next :: rest =>
          if next = ⟨depth, "else:"⟩ ∧ done = [] then do
            let holds ← holds? condition
            let done ← runLines holds? (depth + 1) []
              (if holds then blockBelow depth ls else blockBelow depth rest)
            runLines holds? depth done (afterBlock depth rest)
          else none
      | some _ => none
termination_by ls => ls.length
decreasing_by
  · simp
  all_goals
    have hlength := length_afterBlock_le depth ls
    rw [hrest, List.length_cons] at hlength
    rw [List.length_cons]
  · have hyes := length_blockBelow_le depth ls
    have hno := length_blockBelow_le depth rest
    split <;> omega
  · have hafter := length_afterBlock_le depth rest
    omega

/-- A block ends in front of a line that is not deeper. -/
theorem blockBelow_append {depth : ℕ} {block rest : List Line}
    (hblock : ∀ l ∈ block, depth < l.level) (hrest : ∀ l ∈ rest.head?, l.level = depth) :
    blockBelow depth (block ++ rest) = block ∧ afterBlock depth (block ++ rest) = rest := by
  have hblock' : ∀ l ∈ block, decide (depth < l.level) = true := by simpa using hblock
  rw [blockBelow, afterBlock, List.takeWhile_append_of_pos hblock',
    List.dropWhile_append_of_pos hblock']
  cases rest with
  | nil => simp
  | cons l rest => simp [hrest l rfl]

variable {holds? : List Char → Option Bool} {depth : ℕ} {done : List String}

/-- A line that opens no block is executed. -/
theorem runLines_cons {text : String} (h : heading? text = none) (ls : List Line) :
    runLines holds? depth done (⟨depth, text⟩ :: ls) =
      runLines holds? depth (done ++ instructions [⟨depth, text⟩]) ls := by
  rw [runLines, if_neg (not_not_intro rfl)]
  simp only [h]

/-- Of the two branches of a condition, the one that applies is run, and then what follows. -/
theorem runLines_choice {text : String} {condition : List Char} {holds : Bool}
    {yes no after : List Line} (htext : heading? text = some ('i' :: 'f' :: ' ' :: condition))
    (hholds : holds? condition = some holds) (hyes : ∀ l ∈ yes, depth < l.level)
    (hno : ∀ l ∈ no, depth < l.level) (hafter : ∀ l ∈ after.head?, l.level = depth) :
    runLines holds? depth [] (⟨depth, text⟩ :: (yes ++ ⟨depth, "else:"⟩ :: (no ++ after))) =
      (runLines holds? (depth + 1) [] (if holds then yes else no)).bind fun done =>
        runLines holds? depth done after := by
  have helse : ∀ l ∈ (⟨depth, "else:"⟩ :: (no ++ after) : List Line).head?, l.level = depth := by
    simp
  obtain ⟨hfirst, hsecond⟩ := blockBelow_append hyes helse
  obtain ⟨hthird, hlast⟩ := blockBelow_append hno hafter
  rw [runLines, if_neg (not_not_intro rfl)]
  simp only [htext]
  rw [hsecond]
  simp [hholds, hfirst, hthird, hlast]

/-! ## Running choices -/

/-- A line one level deeper than a depth is deeper than it. -/
theorem lt_level_of_mem_atDepth {ls : List Line} {l : Line} (h : l ∈ atDepth (depth + 1) ls) :
    depth < l.level := by
  obtain ⟨l', -, rfl⟩ := List.mem_map.mp h
  exact Nat.lt_of_lt_of_le (Nat.lt_succ_self depth) (Nat.le_add_left ..)

/-- Adjustments in two parts do what the parts do. -/
theorem instructions_adjustmentLines_append (clip : String) (xs ys : List Adjustment) :
    instructions (adjustmentLines clip (xs ++ ys)) =
      instructions (adjustmentLines clip xs) ++ instructions (adjustmentLines clip ys) := by
  simp [instructions, adjustmentLines]

/-- An adjustment opens no block: it ends in a closing bracket. -/
theorem heading?_adjustment (clip : String) (a : Adjustment) : heading? (a.text clip) = none := by
  have hclosed (text : String) : heading? (text ++ ")") = none := by simp [heading?]
  cases a with
  | resize r => exact hclosed _
  | position p => exact hclosed _

/-- Adjustments are executed one after the other. -/
theorem runLines_adjustmentLines (clip : String) (steps : List Adjustment) :
    runLines holds? depth done (atDepth depth (adjustmentLines clip steps)) =
      some (done ++ instructions (adjustmentLines clip steps)) := by
  induction steps generalizing done with
  | nil => simp [atDepth, adjustmentLines, instructions, runLines]
  | cons a steps ih =>
    have hline : atDepth depth (adjustmentLines clip (a :: steps)) =
        ⟨depth, a.text clip⟩ :: atDepth depth (adjustmentLines clip steps) := by
      simp [atDepth, adjustmentLines, flat]
    rw [hline, runLines_cons (heading?_adjustment clip a), ih, List.append_assoc]
    exact congrArg (fun xs => some (done ++ xs))
      (instructions_adjustmentLines_append clip [a] steps).symm

/-- The adjustments that a choice makes, by the outcomes of its tests. -/
def Choice.steps (outcome : RatioTest → Bool) : Choice → List Adjustment
  | plain steps => steps
  | test t yes no after =>
    (if outcome t then yes.steps outcome else no.steps outcome) ++ after

/-- Running the lines of a choice makes its adjustments. The induction is on the branches: each is
run one level deeper, and nothing is done before it. -/
theorem runLines_lines {clip : String} {canvas : Canvas} {outcome : RatioTest → Bool}
    (htests : ∀ t : RatioTest, holds? (t.text clip canvas).toList = some (outcome t))
    (choice : Choice) :
    runLines holds? depth [] (atDepth depth (choice.lines clip canvas)) =
      some (instructions (adjustmentLines clip (choice.steps outcome))) := by
  induction choice generalizing depth with
  | plain steps =>
    rw [Choice.lines_plain]
    exact runLines_adjustmentLines clip steps
  | test t yes no after ihyes ihno =>
    have hcolon (text : String) : heading? (text ++ ":") = some text.toList := by simp [heading?]
    have hheading : heading? s!"if {t.text clip canvas}:" =
        some ('i' :: 'f' :: ' ' :: (t.text clip canvas).toList) := by
      refine (hcolon _).trans ?_
      simp [toString_text]
    have hlines : atDepth depth ((Choice.test t yes no after).lines clip canvas) =
        ⟨depth, s!"if {t.text clip canvas}:"⟩ :: (atDepth (depth + 1) (yes.lines clip canvas) ++
          ⟨depth, "else:"⟩ :: (atDepth (depth + 1) (no.lines clip canvas) ++
            atDepth depth (adjustmentLines clip after))) := by
      simp [Choice.lines_test, deeper, Nat.add_comm 1, flat]
    have hafter : ∀ l ∈ (atDepth depth (adjustmentLines clip after)).head?, l.level = depth := by
      simp [atDepth, adjustmentLines, flat]
    rw [hlines, runLines_choice hheading (htests t) (fun l => lt_level_of_mem_atDepth)
      (fun l => lt_level_of_mem_atDepth) hafter]
    have hbranch : runLines holds? (depth + 1) []
        (if outcome t then atDepth (depth + 1) (yes.lines clip canvas)
          else atDepth (depth + 1) (no.lines clip canvas)) =
        some (instructions (adjustmentLines clip
          (if outcome t then yes.steps outcome else no.steps outcome))) := by
      split
      · exact ihyes
      · exact ihno
    rw [hbranch, Option.bind_some, runLines_adjustmentLines, Choice.steps,
      instructions_adjustmentLines_append]

/-- A frame is fitted alike, whether it is known or not. -/
theorem steps_fitChoice {canvas : Canvas} {frame : PixelSize} (hcanvas : canvas.height ≠ 0)
    (hframe : frame.height ≠ 0) :
    (fitChoice canvas).steps (RatioTest.outcome canvas frame) =
      fitSteps canvas (canvas.fit frame) := by
  rw [Canvas.fit_eq hcanvas hframe]
  simp only [fitChoice, Choice.steps, RatioTest.outcome, decide_eq_true_eq]
  split_ifs <;> rfl

/-- A comment does nothing. -/
theorem instructions_cons_comment {l : Line} (h : isComment l.text = true) (ls : List Line) :
    instructions (l :: ls) = instructions ls := by
  simp [instructions, h]

/-- What fits a clip of unknown frame is a comment and a choice. -/
theorem lines_fitStatements_none (clip : String) (canvas : Canvas) :
    (fitStatements clip canvas none).flatMap Statement.lines =
      ⟨0, "# Resize the video clip"⟩ :: atDepth 0 ((fitChoice canvas).lines clip canvas) := by
  have hdepth (ls : List Line) : atDepth 0 ls = ls := by simp [atDepth]
  rw [hdepth]
  exact congrArg (List.cons _) (List.append_nil _)

/-- What fits a clip of known frame is a comment and adjustments. -/
theorem lines_fitStatements_some (clip : String) (canvas : Canvas) (frame : PixelSize) :
    (fitStatements clip canvas (some frame)).flatMap Statement.lines =
      ⟨0, "# Resize the video clip"⟩ ::
        adjustmentLines clip (fitSteps canvas (canvas.fit frame)) := by
  have hsteps (steps : List Adjustment) :
      (steps.map (Statement.adjust clip)).flatMap Statement.lines = adjustmentLines clip steps := by
    rw [List.flatMap_map, adjustmentLines, List.map_eq_flatMap]
    rfl
  exact congrArg (List.cons _) (hsteps _)

/-- What fits a clip may be repeated, so all its lines are written. -/
theorem render_fitStatements (clip : String) (canvas : Canvas) (known : Option PixelSize) :
    render (fitStatements (E := LetterEffect) clip canvas known) =
      linesText ((fitStatements clip canvas known).flatMap Statement.lines) := by
  apply render_eq_linesText
  have hnone : (fitStatements (E := LetterEffect) clip canvas known).filterMap
      Statement.onceKey? = [] := by
    rw [List.filterMap_eq_nil_iff]
    cases known <;> simp [fitStatements, Statement.onceKey?]
  rw [hnone]
  exact List.nodup_nil

/-- A clip is fitted alike when the script is written and when it runs. The lines that fit a clip
of unknown frame, run on a clip with a frame, execute what is written if it is known. The ratio
they compare with is the ratio of the canvas in lowest terms: the number both lengths are divided
by divides them. The products that are compared if the frame is known are exact. The script has
these lines and no others for the fitting. -/
theorem fit_when_script_runs (clip : String) {canvas : Canvas} {frame : PixelSize}
    (hcanvas : canvas.height ≠ 0) (hframe : frame.height ≠ 0) :
    runLines (condition? clip frame) 0 []
        ((fitStatements clip canvas none).flatMap Statement.lines) =
      some (instructions ((fitStatements clip canvas (some frame)).flatMap Statement.lines)) ∧
    (∃ a b : ℕ, ratioLiteral canvas.width canvas.height =
        Decimal.natText a ++ "/" ++ Decimal.natText b ∧
      a.Coprime b ∧ 0 < b ∧ (a / b : ℚ) = aspectRatio canvas.width canvas.height) ∧
    ((commonDivisor canvas.width canvas.height).toNat ∣ canvas.width.toNat ∧
      (commonDivisor canvas.width canvas.height).toNat ∣ canvas.height.toNat) ∧
    (Canvas.product frame.width canvas.height).toNat =
      frame.width.toNat * canvas.height.toNat ∧
    (Canvas.product canvas.width frame.height).toNat =
      canvas.width.toNat * frame.height.toNat ∧
    ∀ known : Option PixelSize, render (fitStatements (E := LetterEffect) clip canvas known) =
      linesText ((fitStatements clip canvas known).flatMap Statement.lines) := by
  refine ⟨?_, exists_ratioLiteral_eq canvas.width hcanvas, ?_, Canvas.toNat_product ..,
    Canvas.toNat_product .., render_fitStatements clip canvas⟩
  · have htitle : heading? "# Resize the video clip" = none := by decide
    have hcomment (ls : List Line) : instructions (⟨0, "# Resize the video clip"⟩ :: ls) =
        instructions ls := instructions_cons_comment (by decide) ls
    rw [lines_fitStatements_none, lines_fitStatements_some, runLines_cons htitle, hcomment,
      hcomment, ← steps_fitChoice hcanvas hframe]
    exact runLines_lines (condition?_text hcanvas hframe clip) (fitChoice canvas)
  · rw [toNat_commonDivisor]
    exact ⟨Nat.gcd_dvd_left .., Nat.gcd_dvd_right ..⟩

/-- On an upright canvas, a small upright frame has the ratio of the canvas, and a square one is
wider. -/
theorem portrait_fit_when_script_runs :
    runLines (condition? "intro" ⟨720, 1280⟩) 0 []
        ((fitStatements "intro" ⟨1080, 1920⟩ none).flatMap Statement.lines) =
      some ["intro = intro.resized((1080, 1920))"] ∧
    runLines (condition? "intro" ⟨600, 600⟩) 0 []
        ((fitStatements "intro" ⟨1080, 1920⟩ none).flatMap Statement.lines) =
      some ["intro = intro.resized(width=1080)",
        "intro = intro.with_position((\"center\", \"center\"))"] := by
  have hcanvas : (⟨1080, 1920⟩ : Canvas).height ≠ 0 := by decide
  have hsmall : (⟨720, 1280⟩ : PixelSize).height ≠ 0 := by decide
  have hsquare : (⟨600, 600⟩ : PixelSize).height ≠ 0 := by decide
  exact ⟨(fit_when_script_runs "intro" hcanvas hsmall).1.trans (congrArg some (by decide)),
    (fit_when_script_runs "intro" hcanvas hsquare).1.trans (congrArg some (by decide))⟩

end Script

end Montage
