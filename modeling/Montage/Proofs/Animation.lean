import Mathlib.Data.List.Induction
import Montage.Proofs.Written
import Montage.Script.Clip

/-!
# Helpers of animations are written once

The animations of a script share their helper functions, and animations with the same effect share
the function that moves the letters. A writer remembers by keys what it has written of these. After
any calls, what it remembers is exactly what the animations among the calls asked for, so the text
that an animation adds is known from the animations before it: helpers for the first one, a moving
function for the first one of an effect, and always the statements that are its own.
-/

namespace Montage.Script

/-! ## Calls of a writer -/

/-- The animation of the letters of a clip. -/
structure Animation where
  clip : String
  effect : LetterEffect
  canvas : Canvas
  duration : Float
  position : Point

namespace Animation

/-- All statements of an animation. -/
def statements (a : Animation) : List (Statement LetterEffect) :=
  animationStatements a.clip a.effect a.canvas a.duration a.position

/-- The statements that an animation shares with no other. -/
def ownStatements (a : Animation) : List (Statement LetterEffect) :=
  [.comment s!"Animate the letters of {a.clip}", .findLetters a.clip,
    .animate a.clip a.effect a.canvas a.duration a.position]

end Animation

/-- Something that a writer is asked to do at the outermost level. -/
inductive Call where
  | add (text : String)
  | line (text : String)
  | comment (text : String)
  | blank
  | animate (a : Animation)

/-- The animation that a call asks for. -/
def Call.animation? : Call → Option Animation
  | animate a => some a
  | _ => none

/-- The animations among some calls. -/
def animations (calls : List Call) : List Animation :=
  calls.filterMap Call.animation?

namespace Writer

/-- Does what a call asks for. -/
def perform (w : Writer) : Call → Writer
  | .add text => w.add text
  | .line text => w.line text
  | .comment text => w.comment text
  | .blank => w.blank
  | .animate a => w.emitAll a.statements

/-- Does what some calls ask for, one after the other. -/
def performAll (w : Writer) (calls : List Call) : Writer :=
  calls.foldl perform w

/-- A writer at the outermost level that has met no key of an animation. -/
structure Unused (w : Writer) : Prop where
  level : w.level = 0
  helpers : "letter-animation" ∉ w.written
  motions : ∀ effect : LetterEffect, s!"letter-effect:{effect.name}" ∉ w.written

/-! ## What a writer remembers -/

/-- A writer at the outermost level that has met the keys of some animations, and no other key of an
animation. -/
structure Remembers (earlier : List Animation) (w : Writer) : Prop where
  level : w.level = 0
  met : ∀ s key, Statement.onceKey? s = some key →
    (key ∈ w.written ↔ ∃ a ∈ earlier, s ∈ a.statements)

variable {w : Writer} {earlier : List Animation}

/-- At first a writer remembers no animation. -/
theorem Unused.remembers (h : w.Unused) : w.Remembers [] where
  level := h.level
  met s key hkey := by
    have hfresh : key ∉ w.written := by
      cases s with
      | letterHelpers => exact Option.some.inj hkey ▸ h.helpers
      | letterMotion effect => exact Option.some.inj hkey ▸ h.motions effect
      | _ => simp [Statement.onceKey?] at hkey
    simp [hfresh]

/-- A call adds its animation, if it has one, to what a writer remembers. -/
theorem Remembers.perform (h : w.Remembers earlier) (call : Call) :
    (w.perform call).Remembers (earlier ++ call.animation?.toList) := by
  cases call with
  | animate a =>
    refine ⟨(level_emitAll w a.statements).trans h.level, fun s key hkey => ?_⟩
    have hasked : (∃ t ∈ a.statements, t.onceKey? = some key) ↔ s ∈ a.statements :=
      ⟨fun ⟨t, ht, htkey⟩ => Statement.onceKey?_inj hkey htkey ▸ ht, fun hs => ⟨s, hs, hkey⟩⟩
    rw [Writer.perform, mem_written_emitAll, h.met s key hkey, hasked]
    simp [Call.animation?, or_and_right, exists_or]
  | _ =>
    change Remembers (earlier ++ []) _
    rw [List.append_nil]
    exact ⟨h.level, h.met⟩

/-- After calls a writer remembers the animations among them. -/
theorem Unused.remembers_performAll (h : w.Unused) (calls : List Call) :
    (w.performAll calls).Remembers (animations calls) := by
  induction calls using List.reverseRecOn with
  | nil => exact h.remembers
  | append_singleton calls call ih =>
    have hrun : w.performAll (calls ++ [call]) = (w.performAll calls).perform call := by
      simp [performAll]
    have hanimations : animations (calls ++ [call]) =
        animations calls ++ call.animation?.toList := by
      cases call <;> simp [animations, Call.animation?]
    rw [hrun, hanimations]
    exact ih.perform call

end Writer

/-! ## What an animation adds -/

namespace Animation

/-- Of the statements of an animation, the shared ones are written unless their keys were met. -/
theorem written_statements (keys : List String) (a : Animation) :
    written keys a.statements =
      (if "letter-animation" ∈ keys then [] else [.letterHelpers]) ++
        (if s!"letter-effect:{a.effect.name}" ∈ keys then [] else [.letterMotion a.effect]) ++
        a.ownStatements := by
  have hdistinct : s!"letter-effect:{a.effect.name}" ≠ "letter-animation" := by
    cases a.effect <;> decide
  by_cases hhelpers : "letter-animation" ∈ keys <;>
    by_cases hmotion : s!"letter-effect:{a.effect.name}" ∈ keys <;>
    simp [statements, animationStatements, written, Statement.onceKey?, ownStatements, hhelpers,
      hmotion, hdistinct]

/-- Every animation asks for the helpers. -/
theorem letterHelpers_mem_statements (a : Animation) : .letterHelpers ∈ a.statements := by
  simp [statements, animationStatements]

/-- An animation asks for the moving function of its own effect only. -/
theorem letterMotion_mem_statements_iff {a : Animation} {effect : LetterEffect} :
    .letterMotion effect ∈ a.statements ↔ a.effect.name = effect.name := by
  have hname : effect = a.effect ↔ a.effect.name = effect.name := by
    cases effect <;> cases a.effect <;> decide
  simp [statements, animationStatements, hname]

end Animation

namespace Writer.Remembers

variable {w : Writer} {earlier : List Animation}

/-- The helpers were written if there was an animation. -/
theorem helpers_mem_iff (h : w.Remembers earlier) :
    "letter-animation" ∈ w.written ↔ earlier ≠ [] := by
  rw [h.met .letterHelpers _ rfl]
  simp only [Animation.letterHelpers_mem_statements, and_true]
  exact ⟨fun ⟨a, ha⟩ => List.ne_nil_of_mem ha, List.exists_mem_of_ne_nil earlier⟩

/-- A moving function was written if there was an animation with its effect. -/
theorem motion_mem_iff (h : w.Remembers earlier) (effect : LetterEffect) :
    s!"letter-effect:{effect.name}" ∈ w.written ↔
      ∃ a ∈ earlier, a.effect.name = effect.name := by
  have hkey : (Statement.letterMotion effect).onceKey? = some s!"letter-effect:{effect.name}" := rfl
  rw [h.met _ _ hkey]
  simp only [Animation.letterMotion_mem_statements_iff]

end Writer.Remembers

/-! ## The texts of an animation -/

/-- The functions that all animations share. -/
def helpersText : String :=
  String.join
    ["# Helpers for letter-by-letter text effects\n",
     "import numpy as np\n",
     "from scipy.ndimage import label, find_objects\n",
     "\n",
     "rotMatrix = lambda a: np.array([[np.cos(a), np.sin(a)], [-np.sin(a), np.cos(a)]])\n",
     "\n",
     "def find_letters(mask):\n",
     "    labeled_array, num_features = label(mask)\n",
     "    return find_objects(labeled_array)\n",
     "\n",
     "def move_letters(letters, funcpos, original_clip):\n",
     "    animated_letters = []\n",
     "    for i, letter_slice in enumerate(letters):\n",
     "        x_min, x_max = letter_slice[1].start, letter_slice[1].stop\n",
     "        y_min, y_max = letter_slice[0].start, letter_slice[0].stop\n",
     "        cropped_letter = original_clip.cropped(x1=x_min, x2=x_max, y1=y_min, y2=y_max)\n",
     "        animated_letters.append(cropped_letter.with_position(funcpos((x_min, y_min), i, len(letters))))\n",
     "    return animated_letters\n",
     "\n"]

/-- The moving function of an effect. -/
def motionText : LetterEffect → String
  | .grouping =>
    String.join
      ["def grouping(screenpos, i, nletters):\n",
       "    d = lambda t: 1.0 / (0.3 + t**8)\n",
       "    a = i * np.pi / nletters\n",
       "    v = rotMatrix(a).dot([-1, 0])\n",
       "    if i % 2:\n",
       "        v[1] = -v[1]\n",
       "    return lambda t: screenpos + 400 * d(t) * rotMatrix(0.5 * d(t) * a).dot(v)\n",
       "\n"]
  | .falling =>
    String.join
      ["def falling(screenpos, i, nletters):\n",
       "    v = np.array([0, -1])\n",
       "    d = lambda t: 1 if t < 0 else abs(np.sinc(t) / (1 + t**4))\n",
       "    return lambda t: screenpos + v * 400 * d(t - 0.15 * i)\n",
       "\n"]

/-- What an animation shares with no other. -/
def Animation.ownText (a : Animation) : String :=
  String.join
    [s!"# Animate the letters of {a.clip}\n",
     s!"{a.clip}_letters = find_letters({a.clip}.mask.get_frame(0))\n",
     s!"{a.clip} = moviepy.CompositeVideoClip(\n",
     s!"    move_letters({a.clip}_letters, {a.effect.name}, {a.clip}),\n",
     s!"    size=({pixelsLiteral a.canvas.width}, {pixelsLiteral a.canvas.height}),\n",
     s!").subclipped(0, {numberLiteral a.duration}).with_position({pointLiteral a.position})\n"]

/-- The shared functions are written as they stand above. -/
theorem textOf_letterHelpers : textOf [.letterHelpers] = helpersText :=
  congrArg String.join (by decide +kernel)

/-- The moving function of an effect is written as it stands above. -/
theorem textOf_letterMotion (effect : LetterEffect) :
    textOf [.letterMotion effect] = motionText effect := by
  cases effect <;> exact congrArg String.join (by decide +kernel)

/-- The statements of an animation are written as they stand above. -/
theorem Animation.textOf_ownStatements (a : Animation) : textOf a.ownStatements = a.ownText := by
  apply String.toList_inj.mp
  simp [textOf, linesText, ownStatements, Statement.lines, Statement.actions, layout, ownText,
    Writer.lineText, Writer.indentation, sizeLiteral, Canvas.size, lettersVariable, toString_text]

/-- A writer that has met no animation yet is asked for animations and for other texts in any order.
Each animation adds the helpers if it is the first one, the moving function of its effect if no
animation before it has an effect of the same name, and then its own text, whatever was written
before. The writer is at the outermost level before and after it. -/
theorem animations_share_helpers {w : Writer} (h : w.Unused) (before : List Call) (a : Animation) :
    (w.performAll before).level = 0 ∧
      ((w.performAll before).perform (.animate a)).level = 0 ∧
      ((w.performAll before).perform (.animate a)).output =
        (w.performAll before).output ++
          (if animations before = [] then helpersText else "") ++
          (if ∃ b ∈ animations before, b.effect.name = a.effect.name then ""
            else motionText a.effect) ++
          a.ownText := by
  have hmet := h.remembers_performAll before
  have hhelpers : textOf (if "letter-animation" ∈ (w.performAll before).written then []
      else [.letterHelpers]) =
        if animations before = [] then helpersText else "" := by
    simp only [hmet.helpers_mem_iff, ne_eq, ite_not]
    split
    · exact textOf_letterHelpers
    · rfl
  have hmotion : textOf (if s!"letter-effect:{a.effect.name}" ∈ (w.performAll before).written
      then [] else [.letterMotion a.effect]) =
        if ∃ b ∈ animations before, b.effect.name = a.effect.name then ""
          else motionText a.effect := by
    simp only [hmet.motion_mem_iff a.effect]
    split
    · rfl
    · exact textOf_letterMotion a.effect
  refine ⟨hmet.level, (hmet.perform (.animate a)).level, ?_⟩
  rw [Writer.perform, Writer.output_emitAll _ hmet.level, a.written_statements, textOf_append,
    textOf_append, hhelpers, hmotion, ← String.append_assoc, ← String.append_assoc,
    a.textOf_ownStatements]

/-- An empty script has no animations. -/
theorem Writer.unused_empty : Writer.empty.Unused where
  level := rfl
  helpers := List.not_mem_nil
  motions _ := List.not_mem_nil

/-- A script of which the letters of two titles already move, in two ways. -/
def trailer : List Call :=
  [.line "import moviepy", .blank, .animate ⟨"title", .grouping, .standard, 5.0, .middle⟩,
    .comment "Names", .animate ⟨"credits", .falling, .standard, 3.0, .middle⟩, .add "\n"]

/-- A third title that moves like the first one adds nothing but its own text. -/
theorem trailer_shares_helpers : Writer.empty.Unused ∧
    ((Writer.empty.performAll trailer).perform
        (.animate ⟨"outro", .grouping, .standard, 4.0, .middle⟩)).level = 0 ∧
      ((Writer.empty.performAll trailer).perform
          (.animate ⟨"outro", .grouping, .standard, 4.0, .middle⟩)).output =
        (Writer.empty.performAll trailer).output ++
          Animation.ownText ⟨"outro", .grouping, .standard, 4.0, .middle⟩ := by
  obtain ⟨-, hlevel, houtput⟩ := animations_share_helpers Writer.unused_empty trailer
    ⟨"outro", .grouping, .standard, 4.0, .middle⟩
  have hearlier : animations trailer =
      [⟨"title", .grouping, .standard, 5.0, .middle⟩,
        ⟨"credits", .falling, .standard, 3.0, .middle⟩] := rfl
  rw [hearlier, if_neg (List.cons_ne_nil _ _), if_pos ⟨_, List.mem_cons_self, rfl⟩,
    String.append_empty, String.append_empty] at houtput
  exact ⟨Writer.unused_empty, hlevel, houtput⟩

end Montage.Script
