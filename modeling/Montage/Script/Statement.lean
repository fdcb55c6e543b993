import Montage.Options.Text
import Montage.Script.Effect
import Montage.Script.Literal
import Montage.Script.Name
import Montage.Time.Scale
import Montage.Timeline

/-!
# Statements

A script is a list of statements. Each statement is kept as what it means; what a writer does to
write it is made from that at the end.
-/

namespace Montage.Script

/-! ## Adjustments of clips -/

/-- How a clip is resized. -/
inductive Resize where
  | size (s : PixelSize)
  | width (n : UInt32)
  | height (n : UInt32)
  deriving DecidableEq, Repr

/-- The argument of a resizing call. -/
def Resize.text : Resize → String
  | size s => sizeLiteral s
  | width n => s!"width={pixelsLiteral n}"
  | height n => s!"height={pixelsLiteral n}"

/-- A change of a clip's frame. -/
inductive Adjustment where
  | resize (r : Resize)
  | position (p : Point)
  deriving DecidableEq, Repr

/-- The line that changes a clip. -/
def Adjustment.text (clip : String) : Adjustment → String
  | resize r => s!"{clip} = {clip}.resized({r.text})"
  | position p => s!"{clip} = {clip}.with_position({pointLiteral p})"

/-- How the aspect ratio of a clip compares to that of the canvas. -/
inductive RatioTest where
  | equal
  | wider
  deriving DecidableEq, Repr

/-- The condition that compares ratios when the script runs. -/
def RatioTest.text (clip : String) (canvas : Canvas) (t : RatioTest) : String :=
  let operator := match t with
    | equal => "=="
    | wider => ">"
  s!"{clip}.size[0] / {clip}.size[1] {operator} {ratioLiteral canvas.width canvas.height}"

/-- Adjustments that are chosen when the script runs. -/
inductive Choice where
  | plain (steps : List Adjustment)
  /-- One of two choices by a test, and adjustments that follow either of them. -/
  | test (t : RatioTest) (yes no : Choice) (after : List Adjustment)
  deriving DecidableEq, Repr

/-- Writes adjustments of a clip, one on a line. -/
def adjustmentActions (clip : String) (steps : List Adjustment) : List Action :=
  steps.map fun a => .line (a.text clip)

/-- Writes a choice: each branch one level below its condition. -/
def Choice.actions (clip : String) (canvas : Canvas) : Choice → List Action
  | plain steps => adjustmentActions clip steps
  | test t yes no after =>
    [.line s!"if {t.text clip canvas}:", .indent] ++ yes.actions clip canvas ++
      [.dedent, .line "else:", .indent] ++ no.actions clip canvas ++ [.dedent] ++
      adjustmentActions clip after

/-! ## Effects on clips -/

/-- An effect of the editing library. -/
inductive ClipEffect where
  | brightness (factor : Float)
  | scale (factor : Float)
  | contrast (value : Float)
  | saturation (value : Float)
  | rotation (degrees : Float)
  | crossFadeIn
  | crossFadeOut
  | volume (factor : Float)
  | audioFadeIn (seconds : Float)
  | audioFadeOut (seconds : Float)
  | stereoVolume (left right : Float)
  | normalize
  deriving DecidableEq, Repr

namespace ClipEffect

/-- The variable an effect is kept in. -/
def holder : ClipEffect → String
  | brightness _ => "multiply_effect"
  | scale _ => "resize_effect"
  | contrast _ => "lum_contrast_effect"
  | saturation _ => "painting_effect"
  | rotation _ => "rotate_effect"
  | crossFadeIn => "fade_in"
  | crossFadeOut => "fade_out"
  | volume _ => "new_volume"
  | audioFadeIn _ => "fade_in"
  | audioFadeOut _ => "fade_out"
  | stereoVolume _ _ => "stereo_volume"
  | normalize => "normalize_effect"

/-- The expression that makes an effect. -/
def expression : ClipEffect → String
  | brightness x => s!"moviepy.video.fx.MultiplyColor(factor={numberLiteral x})"
  | scale x => s!"moviepy.video.fx.Resize({numberLiteral x})"
  | contrast x =>
    s!"moviepy.video.fx.LumContrast(lum=20, contrast={numberLiteral x}, contrast_threshold=127)"
  | saturation x => s!"moviepy.video.fx.Painting(saturation={numberLiteral x}, black=0.0)"
  | rotation x =>
    s!"moviepy.video.fx.Rotate(angle={numberLiteral x}, unit=\"deg\", resample=\"bicubic\", expand=True)"
  | crossFadeIn => "moviepy.video.fx.CrossFadeIn(1)"
  | crossFadeOut => "moviepy.video.fx.CrossFadeOut(1)"
  | volume x =>
    s!"moviepy.audio.fx.MultiplyStereoVolume(left={numberLiteral x}, right={numberLiteral x})"
  | audioFadeIn x => s!"moviepy.audio.fx.AudioFadeIn({numberLiteral x})"
  | audioFadeOut x => s!"moviepy.audio.fx.AudioFadeOut({numberLiteral x})"
  | stereoVolume l r =>
    s!"moviepy.audio.fx.MultiplyStereoVolume(left={numberLiteral l}, right={numberLiteral r})"
  | normalize => "moviepy.audio.fx.AudioNormalize()"

end ClipEffect

/-! ## Texts -/

/-- What a text clip is made from. -/
structure TextArguments where
  text : String
  background : Option String
  font : String
  fontSize : UInt32
  color : String
  alignment : TextAlign
  size : PixelSize
  deriving DecidableEq, Repr

/-- Writes the arguments of a text clip, one on a line. -/
def TextArguments.actions (a : TextArguments) : List Action :=
  [.line s!"text={textLiteral a.text},"] ++
    (a.background.toList.map fun color => .line s!"bg_color={textLiteral color},") ++
    [.line s!"font={textLiteral a.font},",
     .line s!"font_size={pixelsLiteral a.fontSize},",
     .line s!"color={textLiteral a.color},",
     .line s!"text_align={textLiteral a.alignment.text},",
     .line s!"size={sizeLiteral a.size},"]

/-! ## Entries -/

/-- When an entry starts, in terms of the entries before it. -/
inductive StartExpression (T : Type) where
  | instant (t : T)
  /-- The start or the end of the clip in a variable, moved by a length. -/
  | relative (clip : String) (anchor : Anchor) (shift : Option (Sign × T))
  deriving DecidableEq, Repr

/-- The assignment of an entry's clip. -/
structure EntryStatement (T : Type) where
  clip : String
  element : String
  /-- Nothing for a clip that starts where it starts by itself. -/
  start : Option (StartExpression T)
  duration : Option T
  deriving DecidableEq, Repr

/-- The attribute that holds an end of a clip. -/
def anchorAttribute : Anchor → String
  | .start => "start"
  | .stop => "end"

/-- The expression of a start. -/
def StartExpression.text : StartExpression Float → String
  | instant t => numberLiteral t
  | relative clip anchor none => s!"{clip}.{anchorAttribute anchor}"
  | relative clip anchor (some (sign, t)) =>
    s!"{clip}.{anchorAttribute anchor} {sign.symbol} {numberLiteral t}"

/-- The line of an entry. -/
def EntryStatement.text (s : EntryStatement Float) : String :=
  let start := match s.start with
    | some e => s!".with_start({e.text})"
    | none => ""
  let duration := match s.duration with
    | some t => s!".with_duration({numberLiteral t})"
    | none => ""
  s!"{s.clip} = {s.element}{start}{duration}"

/-- Something that is heard: a clip, or the sound of a clip that is also seen. -/
structure Track where
  clip : String
  ofVideo : Bool
  deriving DecidableEq, Repr

/-- The expression of a track. -/
def Track.text (t : Track) : String :=
  if t.ofVideo then t.clip ++ ".audio" else t.clip

/-! ## All statements -/

/-- One statement of a script that uses effects of a type. -/
inductive Statement (E : Type) where
  | importLibrary
  | blank
  | comment (text : String)
  | loadVideo (clip path : String)
  | loadAudio (clip path : String)
  | cut (clip source : String) (start stop : Timestamp)
  | adjust (clip : String) (a : Adjustment)
  | choose (clip : String) (canvas : Canvas) (choice : Choice)
  | prepare (effect : ClipEffect)
  | apply (clip : String) (effect : ClipEffect)
  | opacity (clip : String) (value : Float)
  | textClip (clip : String) (arguments : TextArguments) (position : Point)
  /-- The functions that split a text into letters and move them. -/
  | letterHelpers
  /-- The function that says where the letters of an effect are. -/
  | letterMotion (effect : E)
  | findLetters (clip : String)
  | animate (clip : String) (effect : E) (canvas : Canvas) (duration : Float)
      (position : Point)
  | entry (s : EntryStatement Float)
  | composeVideo (clips : List String) (canvas : Canvas)
  | composeAudio (tracks : List Track)
  | attachAudio
  | exportFilm (name : String)
  deriving DecidableEq, Repr

/-- Defines the functions that split a text into letters and move them. -/
def letterHelpersDefinition : List Action :=
  [.line "# Helpers for letter-by-letter text effects",
    .line "import numpy as np",
    .line "from scipy.ndimage import label, find_objects",
    .line "",
    .line "rotMatrix = lambda a: np.array([[np.cos(a), np.sin(a)], [-np.sin(a), np.cos(a)]])",
    .line "",
    .line "def find_letters(mask):", .indent,
    .line "labeled_array, num_features = label(mask)",
    .line "return find_objects(labeled_array)", .dedent,
    .line "",
    .line "def move_letters(letters, funcpos, original_clip):", .indent,
    .line "animated_letters = []",
    .line "for i, letter_slice in enumerate(letters):", .indent,
    .line "x_min, x_max = letter_slice[1].start, letter_slice[1].stop",
    .line "y_min, y_max = letter_slice[0].start, letter_slice[0].stop",
    .line "cropped_letter = original_clip.cropped(x1=x_min, x2=x_max, y1=y_min, y2=y_max)",
    .line "animated_letters.append(cropped_letter.with_position(funcpos((x_min, y_min), i, len(letters))))",
    .dedent,
    .line "return animated_letters", .dedent,
    .line ""]

/-- Expressions with commas between them. -/
def commas (items : List String) : String :=
  ", ".intercalate items

/-- The file a film is exported to. -/
def filmFile (name : String) : String :=
  name ++ ".mp4"

namespace Statement

variable {E : Type} [TextEffect E]

/-- What is done with a writer to write a statement. Only an effect looks at the writer. -/
def actions (w : Writer) : Statement E → List Action
  | importLibrary => [.line "import moviepy"]
  | blank => [.line ""]
  | comment text => [.line s!"# {text}"]
  | loadVideo clip path => [.line s!"{clip} = moviepy.VideoFileClip({textLiteral path})"]
  | loadAudio clip path => [.line s!"{clip} = moviepy.AudioFileClip({textLiteral path})"]
  | cut clip source start stop =>
    [.line s!"{clip} = {source}.subclipped({numberLiteral start.toFloat}, {numberLiteral stop.toFloat})"]
  | adjust clip a => adjustmentActions clip [a]
  | choose clip canvas choice => choice.actions clip canvas
  | prepare effect => [.line s!"{effect.holder} = {effect.expression}"]
  | apply clip effect => [.line s!"{clip} = {effect.holder}.apply({clip})"]
  | opacity clip value => [.line s!"{clip} = {clip}.with_opacity({numberLiteral value})"]
  | textClip clip arguments position =>
    [.line s!"{clip} = moviepy.TextClip(", .indent] ++ arguments.actions ++
      [.dedent, .line s!").with_position({pointLiteral position})"]
  | letterHelpers => letterHelpersDefinition
  | letterMotion effect => TextEffect.definition effect w
  | findLetters clip =>
    [.line s!"{lettersVariable clip} = find_letters({clip}.mask.get_frame(0))"]
  | animate clip effect canvas duration position =>
    [.line s!"{clip} = moviepy.CompositeVideoClip(", .indent,
      .line s!"move_letters({lettersVariable clip}, {TextEffect.name effect}, {clip}),",
      .line s!"size={sizeLiteral canvas.size},", .dedent,
      .line s!").subclipped(0, {numberLiteral duration}).with_position({pointLiteral position})"]
  | entry s => [.line s.text]
  | composeVideo clips canvas =>
    [.line s!"final_video = moviepy.CompositeVideoClip([{commas clips}], size={sizeLiteral canvas.size})"]
  | composeAudio tracks =>
    [.line s!"final_audio = moviepy.CompositeAudioClip([{commas (tracks.map Track.text)}])"]
  | attachAudio => [.line "final_video.audio = final_audio"]
  | exportFilm name => [.line s!"final_video.write_videofile({textLiteral (filmFile name)})"]

/-- The key of a statement that a script needs only once. -/
def onceKey? : Statement E → Option String
  | letterHelpers => some "letter-animation"
  | letterMotion effect => some s!"letter-effect:{TextEffect.name effect}"
  | _ => none

end Statement

variable {E : Type} [TextEffect E]

/-- Writes a statement, unless it is one that must not be repeated. -/
def Writer.emit (w : Writer) (s : Statement E) : Writer :=
  match s.onceKey? with
  | none => w.actAll (s.actions w)
  | some key => (w.once key fun w => w.actAll (s.actions w)).1

/-- Writes statements. -/
def Writer.emitAll (w : Writer) (ss : List (Statement E)) : Writer :=
  ss.foldl emit w

/-- The text of some statements. -/
def render (ss : List (Statement E)) : String :=
  (Writer.empty.emitAll ss).output

end Montage.Script
