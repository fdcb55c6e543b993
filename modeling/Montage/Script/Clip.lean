import Montage.Project
import Montage.Script.Statement
import Montage.Settings

/-!
# Clips

The statements that make the clip of an element: loading or cutting it, fitting videos to the
canvas, and applying the options in their order.
-/

namespace Montage

namespace Project

/-- The frame of an element, following pieces back to a file over at most some number of steps. -/
def frameWithin (p : Project) : Nat → Element → Option PixelSize
  | 0, _ => none
  | _ + 1, .video v => v.size
  | steps + 1, .videoExtract e =>
    match p.element? e.source with
    | some source => frameWithin p steps source
    | none => none
  | _ + 1, _ => none

/-- The frame of an element, if the project tells it. -/
def frameOf (p : Project) (e : Element) : Option PixelSize :=
  p.frameWithin (p.elements.length + 1) e

end Project

namespace Script

variable {E : Type}

/-! ## Videos -/

/-- The adjustments of a fit. -/
def fitSteps (canvas : Canvas) : Fit → List Adjustment
  | .exact => [.resize (.size canvas.size)]
  | .width => [.resize (.width canvas.width), .position .middle]
  | .height => [.resize (.height canvas.height), .position .middle]

/-- The fit of a clip whose frame is known only when the script runs. -/
def fitChoice (canvas : Canvas) : Choice :=
  .test .equal (.plain [.resize (.size canvas.size)])
    (.test .wider (.plain [.resize (.width canvas.width)])
      (.plain [.resize (.height canvas.height)]) [.position .middle]) []

/-- Fits a clip to the canvas. -/
def fitStatements (clip : String) (canvas : Canvas) (frame : Option PixelSize) :
    List (Statement E) :=
  .comment "Resize the video clip" ::
    match frame with
    | some s => (fitSteps canvas (canvas.fit s)).map (.adjust clip)
    | none => [.choose clip canvas (fitChoice canvas)]

/-- Applies an effect to a clip. -/
def effectStatements (clip title : String) (effect : ClipEffect) : List (Statement E) :=
  [.comment title, .prepare effect, .apply clip effect]

/-- The size a clip is resized to by its options. -/
def optionSize (options : List VideoOption) : Option PixelSize :=
  options.findSome? VideoOption.size?

/-- Applies a video option, one of all options of the clip. -/
def videoOptionStatements (clip : String) (canvas : Canvas) (options : List VideoOption) :
    VideoOption → List (Statement E)
  | .brightness x => effectStatements clip "Apply brightness effect" (.brightness x)
  | .scale x => effectStatements clip "Apply scale effect" (.scale x)
  | .opacity x => [.comment "Apply opacity effect", .opacity clip x]
  | .contrast x => effectStatements clip "Apply contrast effect" (.contrast x)
  | .saturation x => effectStatements clip "Apply saturation effect" (.saturation x)
  | .rotation x => effectStatements clip "Apply rotation effect" (.rotation x)
  | .transition .fadeIn => effectStatements clip "Apply fade in effect" .crossFadeIn
  | .transition .fadeOut => effectStatements clip "Apply fade out effect" .crossFadeOut
  | .resolution preset =>
    [.comment "Apply resolution effect", .adjust clip (.resize (.size preset.size))]
  | .size s => [.comment "Apply size effect", .adjust clip (.resize (.size s))]
  | .position p =>
    [.comment "Apply position effect",
      .adjust clip (.position (p.place canvas (optionSize options) .corner))]

/-- Fits a video and applies its options. -/
def finishVideo (p : Project) (canvas : Canvas) (e : Element) (options : List VideoOption) :
    List (Statement E) :=
  fitStatements e.name canvas (p.frameOf e) ++
    options.flatMap (videoOptionStatements e.name canvas options) ++ [.blank]

/-- The clip of a video; nothing for other elements. -/
def videoStatements (p : Project) (canvas : Canvas) (e : Element) : List (Statement E) :=
  match e with
  | .video v =>
    [.comment "Load the video clip", .loadVideo v.name v.path] ++ finishVideo p canvas e v.options
  | .videoExtract x =>
    [.comment "Extract a subclip from the video", .cut x.name x.source x.start x.stop] ++
      finishVideo p canvas e x.options
  | _ => []

/-! ## Sounds -/

/-- Applies an audio option. -/
def audioOptionStatements (clip : String) : AudioOption → List (Statement E)
  | .volume x => effectStatements clip "Apply audio volume effect" (.volume x)
  | .fadeIn x => effectStatements clip "Apply fade in effect" (.audioFadeIn x)
  | .fadeOut x => effectStatements clip "Apply fade out effect" (.audioFadeOut x)
  | .stereoVolume v =>
    effectStatements clip "Apply stereo volume effect" (.stereoVolume v.left v.right)
  | .normalize => effectStatements clip "Apply normalize effect" .normalize

/-- The clip of a sound; nothing for other elements. -/
def audioStatements : Element → List (Statement E)
  | .audio a =>
    [.comment "Load the audio clip", .loadAudio a.name a.path] ++
      a.options.flatMap (audioOptionStatements a.name) ++ [.blank]
  | .audioExtract x =>
    [.comment "Extract a subclip from the audio", .cut x.name x.source x.start x.stop] ++
      x.options.flatMap (audioOptionStatements x.name) ++ [.blank]
  | _ => []

/-! ## Texts -/

/-- The last value that some options set for a kind. -/
def lastValue (k : TextOption.Kind) (options : List TextOption) : Option k.Value :=
  (options.filterMap (TextOption.value? k)).getLast?

/-- The frame of a text: the whole canvas unless an option says otherwise. -/
def textSize (settings : ScriptSettings) (options : List TextOption) : PixelSize :=
  (lastValue .size options).getD settings.canvas.size

/-- Where a text is shown. Subtitles have their place in the settings; other texts are in the middle
unless an option says otherwise. -/
def textPosition (settings : ScriptSettings) (e : Element) (options : List TextOption) : Point :=
  if e.isSubtitle then ⟨.center, .pixels settings.subtitleOffset.toInt⟩
  else
    match lastValue .position options with
    | some p => p.place settings.canvas (some (textSize settings options)) .middle
    | none => .middle

/-- What the clip of a text is made from. -/
def textArguments (settings : ScriptSettings) (t : TextBlock) : TextArguments where
  text := t.text
  background := lastValue .background t.options
  font := settings.fontArgument (lastValue .font t.options)
  fontSize := (lastValue .fontSize t.options).getD settings.defaultFontSize
  color := (lastValue .fontColor t.options).getD settings.defaultFontColor
  alignment := (lastValue .alignment t.options).getD .left
  size := textSize settings t.options

/-- Animates the letters of a clip. -/
def animationStatements (clip : String) (effect : E) (canvas : Canvas)
    (duration : Float) (position : Point) : List (Statement E) :=
  [.letterHelpers, .letterMotion effect, .comment s!"Animate the letters of {clip}",
    .findLetters clip, .animate clip effect canvas duration position]

/-- The effect that the options of a text choose, if the registry knows it. -/
def chosenEffect? (effects : EffectRegistry E) (options : List TextOption) : Option E :=
  match lastValue .effect options with
  | some e => effects.find? e.name
  | none => none

/-- The clip of a text, animated for a length of time; nothing for other elements. -/
def textStatements (settings : ScriptSettings) (effects : EffectRegistry E) (duration : Float)
    (e : Element) : List (Statement E) :=
  match e.textBlock? with
  | none => []
  | some t =>
    let position := textPosition settings e t.options
    let title := if e.isSubtitle then "Load the subtitle clip" else "Load the text clip"
    [.comment title, .textClip t.name (textArguments settings t) position] ++
      (match chosenEffect? effects t.options with
        | some effect => animationStatements t.name effect settings.canvas duration position
        | none => []) ++ [.blank]

end Script

end Montage
