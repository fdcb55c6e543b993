import Mathlib.Data.List.Basic
import Montage.Script.Statement

/-!
# The text of a script

Some statements are asked for whenever they are needed but written only the first time. What a
writer puts out is therefore the text of fewer statements than it was given. These statements are
computed here on their own, so that what is known of the order of statements carries over to the
text of the script.

A writer indents and goes back while it writes a statement. Which lines come out, and at which
depths, is read off what it does. If it goes back as often as it indents, and never beyond the depth
where it started, the lines stand below the level of the writer, and the writer is at that level
again behind them. So it is with every statement whose effects are built in.
-/

namespace Montage.Script

/-! ## Statements that are written -/

section Written

variable {E : Type} [TextEffect E]

/-- The statements that are written, given the keys that were met before. -/
def written (keys : List String) : List (Statement E) → List (Statement E)
  | [] => []
  | s :: rest =>
    match s.onceKey? with
    | none => s :: written keys rest
    | some key => if key ∈ keys then written keys rest else s :: written (key :: keys) rest

/-- What is written are some of the statements, in their order. -/
theorem written_sublist (keys : List String) (ss : List (Statement E)) :
    (written keys ss).Sublist ss := by
  induction ss generalizing keys with
  | nil => exact .slnil
  | cons s ss ih =>
    unfold written
    split
    · exact (ih keys).cons_cons s
    · split
      · exact (ih keys).cons s
      · exact (ih _).cons_cons s

/-- Last statements that may be repeated are written. -/
theorem written_append {ts : List (Statement E)} (h : ∀ t ∈ ts, t.onceKey? = none)
    (keys : List String) (ss : List (Statement E)) :
    written keys (ss ++ ts) = written keys ss ++ ts := by
  induction ss generalizing keys with
  | nil =>
    rw [List.nil_append, written, List.nil_append]
    induction ts with
    | nil => rfl
    | cons t ts ih =>
      obtain ⟨ht, hts⟩ := List.forall_mem_cons.mp h
      simp only [written, ht, ih hts]
  | cons s ss ih =>
    rw [List.cons_append, written, written]
    split
    · rw [ih, List.cons_append]
    · split
      · exact ih keys
      · rw [ih, List.cons_append]

/-- Statements are all written if their keys differ from each other and from those met before. -/
theorem written_eq_self {keys : List String} {ss : List (Statement E)}
    (hkeys : (ss.filterMap Statement.onceKey?).Nodup)
    (hnew : ∀ key ∈ ss.filterMap Statement.onceKey?, key ∉ keys) : written keys ss = ss := by
  induction ss generalizing keys with
  | nil => rfl
  | cons s ss ih =>
    rw [written]
    cases hkey : s.onceKey? with
    | none =>
      rw [List.filterMap_cons_none hkey] at hkeys hnew
      exact congrArg (s :: ·) (ih hkeys hnew)
    | some key =>
      rw [List.filterMap_cons_some hkey] at hkeys hnew
      obtain ⟨hfirst, hkeys⟩ := List.nodup_cons.mp hkeys
      obtain ⟨hmet, hnew⟩ := List.forall_mem_cons.mp hnew
      have hrest : ∀ k ∈ ss.filterMap Statement.onceKey?, k ∉ key :: keys := fun k hk =>
        List.not_mem_cons_of_ne_of_not_mem (fun h => hfirst (h ▸ hk)) (hnew k hk)
      simp only [if_neg hmet, ih hkeys hrest]

/-- Which statements are written depends on their keys only. -/
theorem written_map {f : Statement E → Statement E} (h : ∀ s, (f s).onceKey? = s.onceKey?)
    (keys : List String) (ss : List (Statement E)) :
    written keys (ss.map f) = (written keys ss).map f := by
  induction ss generalizing keys with
  | nil => rfl
  | cons s ss ih =>
    rw [List.map_cons, written, written, h]
    split
    · rw [ih, List.map_cons]
    · split
      · exact ih keys
      · rw [ih, List.map_cons]

end Written

/-! ## Lines of actions -/

/-- A line with its depth. -/
structure Line where
  level : ℕ
  text : String
  deriving DecidableEq, Repr

/-- A line at the outermost depth. -/
def flat (text : String) : Line :=
  ⟨0, text⟩

/-- Lines at a depth below their own. -/
def atDepth (depth : ℕ) (ls : List Line) : List Line :=
  ls.map fun l => ⟨l.level + depth, l.text⟩

/-- Lines one level deeper. -/
def deeper (ls : List Line) : List Line :=
  atDepth 1 ls

/-- Depth zero changes nothing. -/
@[simp] theorem atDepth_zero (ls : List Line) : atDepth 0 ls = ls :=
  List.map_id' ls

/-- No lines stay no lines at any depth. -/
@[simp] theorem atDepth_nil (depth : ℕ) : atDepth depth [] = [] :=
  rfl

/-- Lines are moved one by one. -/
@[simp] theorem atDepth_cons (depth : ℕ) (l : Line) (ls : List Line) :
    atDepth depth (l :: ls) = ⟨l.level + depth, l.text⟩ :: atDepth depth ls :=
  rfl

/-- Depths add up. -/
@[simp] theorem atDepth_atDepth (m n : ℕ) (ls : List Line) :
    atDepth m (atDepth n ls) = atDepth (n + m) ls := by
  simp [atDepth, Nat.add_assoc]

/-- Parts are moved one by one. -/
@[simp] theorem atDepth_append (depth : ℕ) (xs ys : List Line) :
    atDepth depth (xs ++ ys) = atDepth depth xs ++ atDepth depth ys :=
  List.map_append

/-- The text of some lines. -/
def linesText (ls : List Line) : String :=
  String.join (ls.map fun l => Writer.lineText l.level l.text)

/-- No lines have no text. -/
@[simp] theorem linesText_nil : linesText [] = "" :=
  rfl

/-- The texts of lines follow each other. -/
theorem linesText_append (xs ys : List Line) :
    linesText (xs ++ ys) = linesText xs ++ linesText ys := by
  simp [linesText]

/-- The text of lines starts with that of the first. -/
theorem linesText_cons (l : Line) (ls : List Line) :
    linesText (l :: ls) = Writer.lineText l.level l.text ++ linesText ls := by
  simp [linesText]

/-- The lines that are written by some actions, from a depth on. -/
def layout : ℕ → List Action → List Line
  | _, [] => []
  | depth, .line text :: rest => ⟨depth, text⟩ :: layout depth rest
  | depth, .indent :: rest => layout (depth + 1) rest
  | depth, .dedent :: rest => layout (depth - 1) rest
  | depth, .add _ :: rest => layout depth rest
  | depth, .mark _ :: rest => layout depth rest

/-- The depth that some actions end at. There is none if they go back beyond the outermost depth, or
if they do more than to write lines and to change the depth. -/
def depthAfter? : ℕ → List Action → Option ℕ
  | depth, [] => some depth
  | depth, .line _ :: rest => depthAfter? depth rest
  | depth, .indent :: rest => depthAfter? (depth + 1) rest
  | depth + 1, .dedent :: rest => depthAfter? depth rest
  | 0, .dedent :: _ => none
  | _, .add _ :: _ => none
  | _, .mark _ :: _ => none

/-- Actions that end at the depth where they start. -/
def Balanced (actions : List Action) : Prop :=
  depthAfter? 0 actions = some 0

instance (actions : List Action) : Decidable (Balanced actions) :=
  inferInstanceAs (Decidable (depthAfter? 0 actions = some 0))

section Layout

variable {depth stop : ℕ} {xs : List Action}

/-- Actions that end at a depth are followed by the lines of later actions from that depth on. -/
theorem layout_append (h : depthAfter? depth xs = some stop) (ys : List Action) :
    layout depth (xs ++ ys) = layout depth xs ++ layout stop ys ∧
      depthAfter? depth (xs ++ ys) = depthAfter? stop ys := by
  fun_induction depthAfter? depth xs with
  | case1 depth =>
    obtain rfl := Option.some.inj h
    exact ⟨rfl, rfl⟩
  | case2 depth text rest ih =>
    obtain ⟨hlayout, hdepth⟩ := ih h
    exact ⟨congrArg (List.cons _) hlayout, hdepth⟩
  | case3 depth rest ih => exact ih h
  | case4 depth rest ih => exact ih h
  | case5 => cases h
  | case6 => cases h
  | case7 => cases h

/-- Actions that can start at a depth can start deeper, and their lines are then deeper as well. -/
theorem layout_add (h : depthAfter? depth xs = some stop) (base : ℕ) :
    layout (depth + base) xs = atDepth base (layout depth xs) ∧
      depthAfter? (depth + base) xs = some (stop + base) := by
  fun_induction depthAfter? depth xs with
  | case1 depth =>
    obtain rfl := Option.some.inj h
    exact ⟨rfl, rfl⟩
  | case2 depth text rest ih =>
    obtain ⟨hlayout, hdepth⟩ := ih h
    exact ⟨congrArg (List.cons _) hlayout, hdepth⟩
  | case3 depth rest ih =>
    rw [Nat.add_right_comm] at ih
    exact ih h
  | case4 depth rest ih =>
    rw [Nat.add_right_comm depth 1 base]
    exact ih h
  | case5 => cases h
  | case6 => cases h
  | case7 => cases h

/-- A writer at a depth appends the lines of its actions, and goes to the depth that they end at. -/
theorem Writer.actAll_eq (h : depthAfter? depth xs = some stop) {w : Writer}
    (hlevel : w.level = depth) :
    w.actAll xs = { w with output := w.output ++ linesText (layout depth xs), level := stop } := by
  fun_induction depthAfter? depth xs generalizing w with
  | case1 depth =>
    obtain rfl := Option.some.inj h
    simp [Writer.actAll, layout, ← hlevel]
  | case2 depth text rest ih =>
    have hstep : w.actAll (.line text :: rest) = (w.line text).actAll rest := rfl
    rw [hstep, ih h (w := w.line text) hlevel, layout, linesText_cons, ← hlevel,
      ← String.append_assoc]
    rfl
  | case3 depth rest ih => exact ih h (w := w.indent) (congrArg (· + 1) hlevel)
  | case4 depth rest ih => exact ih h (w := w.dedent) (congrArg (· - 1) hlevel)
  | case5 => cases h
  | case6 => cases h
  | case7 => cases h

end Layout

namespace Balanced

variable {xs ys : List Action}

/-- The lines of balanced actions stand before those of later actions. -/
theorem layout_append (h : Balanced xs) (depth : ℕ) (ys : List Action) :
    layout depth (xs ++ ys) = atDepth depth (layout 0 xs) ++ layout depth ys := by
  obtain ⟨hlayout, hdepth⟩ := layout_add h depth
  rw [Nat.zero_add] at hlayout hdepth
  rw [(Script.layout_append hdepth ys).1, hlayout]

/-- Balanced actions leave the depth as it is, wherever they start. -/
theorem depthAfter?_append (h : Balanced xs) (depth : ℕ) (ys : List Action) :
    depthAfter? depth (xs ++ ys) = depthAfter? depth ys := by
  have hdepth := (layout_add h depth).2
  rw [Nat.zero_add] at hdepth
  exact (Script.layout_append hdepth ys).2

/-- A writer appends the lines of balanced actions below its level and stays there. -/
theorem actAll_eq (h : Balanced xs) (w : Writer) :
    w.actAll xs = w.add (linesText (atDepth w.level (layout 0 xs))) := by
  obtain ⟨hlayout, hdepth⟩ := layout_add h w.level
  rw [Nat.zero_add] at hlayout hdepth
  rw [Writer.actAll_eq hdepth rfl, hlayout]
  rfl

end Balanced

/-! ## Lines of statements -/

/-- A text that is put into another one is put there as it is. -/
theorem toString_text (s : String) : toString s = s :=
  rfl

/-- A built-in effect is known by the name of its kind. -/
@[simp] theorem textEffect_name (effect : LetterEffect) : TextEffect.name effect = effect.name :=
  rfl

/-- Adjustments of a clip are balanced: each of them is a line. -/
theorem balanced_adjustmentActions (clip : String) (steps : List Adjustment) :
    Balanced (adjustmentActions clip steps) := by
  induction steps with
  | nil => rfl
  | cons a steps ih => exact ih

/-- The lines of adjustments. -/
def adjustmentLines (clip : String) (steps : List Adjustment) : List Line :=
  steps.map fun a => flat (a.text clip)

/-- Adjustments are written one on a line. -/
theorem layout_adjustmentActions (clip : String) (steps : List Adjustment) :
    layout 0 (adjustmentActions clip steps) = adjustmentLines clip steps := by
  induction steps with
  | nil => rfl
  | cons a steps ih => exact congrArg (List.cons _) ih

namespace Choice

variable (clip : String) (canvas : Canvas)

/-- The lines of a choice. -/
def lines (choice : Choice) : List Line :=
  layout 0 (choice.actions clip canvas)

/-- A choice is balanced: it goes back behind each of its branches. -/
theorem balanced_actions (choice : Choice) : Balanced (choice.actions clip canvas) := by
  induction choice with
  | plain steps => exact balanced_adjustmentActions clip steps
  | test t yes no after ihyes ihno =>
    simp only [Balanced, actions, List.append_assoc, List.cons_append, List.nil_append,
      depthAfter?, ihyes.depthAfter?_append, ihno.depthAfter?_append]
    exact balanced_adjustmentActions clip after

/-- The lines of a choice without a test. -/
@[simp] theorem lines_plain (steps : List Adjustment) :
    (plain steps).lines clip canvas = adjustmentLines clip steps :=
  layout_adjustmentActions clip steps

/-- The branches of a choice are nested below its condition and below the word that follows. -/
theorem lines_test (t : RatioTest) (yes no : Choice) (after : List Adjustment) :
    (test t yes no after).lines clip canvas =
      flat s!"if {t.text clip canvas}:" :: deeper (yes.lines clip canvas) ++
        flat "else:" :: deeper (no.lines clip canvas) ++ adjustmentLines clip after := by
  simp only [lines, actions, List.append_assoc, List.cons_append, List.nil_append, layout,
    Nat.zero_add, Nat.sub_self, (balanced_actions clip canvas yes).layout_append,
    (balanced_actions clip canvas no).layout_append, layout_adjustmentActions]
  rfl

end Choice

/-- The lines of the arguments of a text clip. -/
def TextArguments.lines (a : TextArguments) : List Line :=
  layout 0 a.actions

/-- The arguments of a text clip stand one on a line, and there may be no background. -/
theorem TextArguments.lines_eq (a : TextArguments) :
    a.lines = [flat s!"text={textLiteral a.text},"] ++
      (a.background.toList.map fun color => flat s!"bg_color={textLiteral color},") ++
      [flat s!"font={textLiteral a.font},",
       flat s!"font_size={pixelsLiteral a.fontSize},",
       flat s!"color={textLiteral a.color},",
       flat s!"text_align={textLiteral a.alignment.text},",
       flat s!"size={sizeLiteral a.size},"] := by
  unfold lines actions
  cases a.background <;> rfl

/-- The arguments of a text clip are balanced: each of them is a line. -/
theorem TextArguments.balanced_actions (a : TextArguments) : Balanced a.actions := by
  unfold actions
  cases a.background <;> rfl

namespace Statement

/-- The lines of a statement. -/
def lines (s : Statement LetterEffect) : List Line :=
  layout 0 (s.actions .empty)

/-- What is done to write a statement does not depend on the writer, if effects are built in. -/
theorem actions_eq (s : Statement LetterEffect) (w : Writer) : s.actions w = s.actions .empty := by
  cases s <;> rfl

/-- Every statement is balanced. -/
theorem balanced_actions (s : Statement LetterEffect) : Balanced (s.actions .empty) := by
  cases s with
  | choose clip canvas choice => exact choice.balanced_actions clip canvas
  | textClip clip arguments position =>
    simp only [Balanced, actions, List.cons_append, List.nil_append, depthAfter?,
      arguments.balanced_actions.depthAfter?_append]
  | letterMotion effect => cases effect <;> rfl
  | _ => rfl

/-- The arguments of a text clip are nested below its call. -/
theorem lines_textClip (clip : String) (arguments : TextArguments) (position : Point) :
    (textClip clip arguments position).lines =
      flat s!"{clip} = moviepy.TextClip(" :: deeper arguments.lines ++
        [flat s!").with_position({pointLiteral position})"] := by
  simp only [lines, actions, List.cons_append, List.nil_append, layout,
    arguments.balanced_actions.layout_append]
  rfl

end Statement

/-- The lines of statements, one below the other, as a text. -/
def textOf (statements : List (Statement LetterEffect)) : String :=
  linesText (statements.flatMap Statement.lines)

/-- The texts of statements follow each other. -/
theorem textOf_append (ss ts : List (Statement LetterEffect)) :
    textOf (ss ++ ts) = textOf ss ++ textOf ts := by
  simp [textOf, linesText_append]

/-- The text of statements starts with that of the first. -/
theorem textOf_cons (s : Statement LetterEffect) (ss : List (Statement LetterEffect)) :
    textOf (s :: ss) = textOf [s] ++ textOf ss :=
  textOf_append [s] ss

namespace Writer

/-- What a statement does to a writer is to append its lines below the level of the writer. -/
theorem actAll_actions (w v : Writer) (s : Statement LetterEffect) :
    w.actAll (s.actions v) = w.add (linesText (atDepth w.level s.lines)) := by
  rw [s.actions_eq v, s.balanced_actions.actAll_eq]
  rfl

/-- A writer that has written a statement is at its level again. -/
theorem level_actAll_actions (w v : Writer) (s : Statement LetterEffect) :
    (w.actAll (s.actions v)).level = w.level := by
  rw [actAll_actions, add]

/-- Whatever statements a writer is given, it is at its level again behind them. -/
theorem level_emitAll (w : Writer) (ss : List (Statement LetterEffect)) :
    (w.emitAll ss).level = w.level := by
  have hemit (w : Writer) (s : Statement LetterEffect) : (w.emit s).level = w.level := by
    unfold emit
    split
    · exact level_actAll_actions w w s
    · unfold once
      split
      · rfl
      · exact level_actAll_actions (w.mark _) _ s
  induction ss generalizing w with
  | nil => rfl
  | cons s ss ih => exact (ih (w.emit s)).trans (hemit w s)

/-- A writer knows the keys that it knew before and those of the statements that it was given. -/
theorem mem_written_emitAll {w : Writer} {ss : List (Statement LetterEffect)} {key : String} :
    key ∈ (w.emitAll ss).written ↔ key ∈ w.written ∨ ∃ s ∈ ss, s.onceKey? = some key := by
  have hemit (w : Writer) (s : Statement LetterEffect) :
      key ∈ (w.emit s).written ↔ key ∈ w.written ∨ s.onceKey? = some key := by
    unfold emit
    cases s.onceKey? with
    | none => simp [actAll_actions, add]
    | some k =>
      by_cases hk : k ∈ w.written
      · simp only [once, if_pos hk, Option.some.injEq]
        exact ⟨Or.inl, fun h => h.elim id fun heq => heq ▸ hk⟩
      · simp [once, hk, actAll_actions, add, mark, or_comm, eq_comm]
  induction ss generalizing w with
  | nil => simp [emitAll]
  | cons s ss ih =>
    have hstep : w.emitAll (s :: ss) = (w.emit s).emitAll ss := rfl
    rw [hstep, List.exists_mem_cons_iff, ← or_assoc, ← hemit w s]
    exact ih

/-- At the outermost level a statement appends its own text. -/
theorem actAll_actions_eq {w : Writer} (hlevel : w.level = 0) (v : Writer)
    (s : Statement LetterEffect) :
    w.actAll (s.actions v) = { w with output := w.output ++ textOf [s] } := by
  rw [actAll_actions, add, textOf, List.flatMap_singleton, hlevel, atDepth_zero]

/-- At the outermost level a writer appends the text of those statements that are not repeated. -/
theorem output_emitAll (w : Writer) (hlevel : w.level = 0) (ss : List (Statement LetterEffect)) :
    (w.emitAll ss).output = w.output ++ textOf (Script.written w.written ss) := by
  induction ss generalizing w with
  | nil => simp [emitAll, Script.written, textOf]
  | cons s ss ih =>
    have hstep : w.emitAll (s :: ss) = (w.emit s).emitAll ss := rfl
    rw [hstep]
    cases hkey : s.onceKey? with
    | none =>
      have hemit : w.emit s = { w with output := w.output ++ textOf [s] } := by
        simp [emit, hkey, actAll_actions_eq hlevel]
      rw [hemit, ih { w with output := w.output ++ textOf [s] } hlevel]
      simp only [Script.written, hkey]
      rw [String.append_assoc, ← textOf_cons]
    | some key =>
      by_cases hmet : key ∈ w.written
      · have hemit : w.emit s = w := by simp [emit, hkey, once, hmet]
        rw [hemit, ih w hlevel]
        simp [Script.written, hkey, hmet]
      · have hemit : w.emit s = ⟨w.output ++ textOf [s], w.level, key :: w.written⟩ := by
          simp only [emit, hkey, once, hmet, if_false]
          exact actAll_actions_eq (w := w.mark key) hlevel _ s
        rw [hemit, ih ⟨w.output ++ textOf [s], w.level, key :: w.written⟩ hlevel]
        simp only [Script.written, hkey, hmet, if_false]
        rw [String.append_assoc, ← textOf_cons]

end Writer

/-- A script is the text of the statements that are not repeated. -/
theorem render_eq_textOf (ss : List (Statement LetterEffect)) :
    render ss = textOf (written [] ss) := by
  rw [render, Writer.output_emitAll Writer.empty rfl ss]
  exact String.empty_append

/-- The text of statements with different keys is that of their lines. -/
theorem render_eq_linesText {ss : List (Statement LetterEffect)}
    (h : (ss.filterMap Statement.onceKey?).Nodup) :
    render ss = linesText (ss.flatMap Statement.lines) := by
  rw [render_eq_textOf, written_eq_self h fun _ _ => List.not_mem_nil, textOf]

/-- Statements that are written only once have keys of their own. -/
theorem Statement.onceKey?_inj {s t : Statement LetterEffect} {key : String}
    (hs : s.onceKey? = some key) (ht : t.onceKey? = some key) : s = t := by
  have hkeys : ∀ e : LetterEffect, "letter-animation" ≠ s!"letter-effect:{e.name}" := by
    intro e
    cases e <;> decide
  have hinj : ∀ e f : LetterEffect,
      s!"letter-effect:{e.name}" = s!"letter-effect:{f.name}" → e = f := by
    intro e f
    cases e <;> cases f <;> decide
  cases s <;> simp only [onceKey?, Option.some.injEq, reduceCtorEq] at hs <;>
    cases t <;> simp only [onceKey?, Option.some.injEq, reduceCtorEq] at ht
  case letterHelpers.letterHelpers => rfl
  case letterHelpers.letterMotion e => exact absurd (hs.trans ht.symm) (hkeys e)
  case letterMotion.letterHelpers e => exact absurd (ht.trans hs.symm) (hkeys e)
  case letterMotion.letterMotion e f => rw [hinj e f (hs.trans ht.symm)]

end Montage.Script
