import Montage.Decimal.Digits
import Montage.Diagnostic
import Montage.Project

/-!
# The rule on ranges

The values of options must lie where the effects of the script accept them, and a piece must end
after it starts. No option is in range whose value is not a number.
-/

namespace Montage

/-- Whether a number lies between two others, the ends included. -/
def between (low high x : Float) : Bool :=
  low ≤ x && x ≤ high

/-- Whether a number is above zero. -/
def isPositive (x : Float) : Bool :=
  !x.isNaN && !(x ≤ 0.0)

/-- The greatest frame a video may be resized to. -/
def largestFrame : PixelSize :=
  ⟨1920, 1080⟩

/-- Whether a video may be resized to a frame. -/
def PixelSize.isUsable (s : PixelSize) : Bool :=
  s.width ≠ 0 && s.height ≠ 0 && s.width ≤ largestFrame.width && s.height ≤ largestFrame.height

/-- Whether the sides of a frame are about as sixteen to nine. -/
def PixelSize.isWide (s : PixelSize) : Bool :=
  let ratio := Float.ofNat s.width.toNat / Float.ofNat s.height.toNat
  !(0.01 < (ratio - 16.0 / 9.0).abs)

/-- What is wrong with the value of a video option. -/
def VideoOption.complaint? : VideoOption → Option String
  | brightness x =>
    if between (-5.0) 5.0 x then none else some "Brightness must be between -5 and 5"
  | contrast x => if between 0.0 5.0 x then none else some "Contrast must be between 0 and 5"
  | saturation x =>
    if between (-1.0) 1.0 x then none
    else some "Saturation must be between -1 and 1. For example, 0.5 is no change"
  | opacity x => if between 0.0 1.0 x then none else some "Opacity must be between 0 and 1"
  | scale x =>
    if between 0.0 3.0 x && !(x ≤ 0.0) then none
    else some "Scale is a factor. It must be above 0 and at most 3 (300%)"
  | size s =>
    if s.isUsable then none
    else some "Resolution must be at most FullHD (1920x1080) and cannot be empty"
  | rotation _ => none
  | transition _ => none
  | resolution _ => none
  | position _ => none

/-- What is wrong with the value of an audio option. -/
def AudioOption.complaint? : AudioOption → Option String
  | volume x => if between 0.0 2.0 x then none else some "Volume must be between 0 and 2"
  | stereoVolume v =>
    if between 0.0 2.0 v.left && between 0.0 2.0 v.right then none
    else some "Stereo volume must be between 0 and 2 on each channel"
  | fadeIn x => if isPositive x then none else some "Fade in time must be positive"
  | fadeOut x => if isPositive x then none else some "Fade out time must be positive"
  | normalize => none

/-- The fonts that are usually installed. -/
def commonFonts : List String :=
  ["Arial", "Times New Roman", "Courier New", "Verdana", "Georgia", "Palatino Linotype",
    "Book Antiqua", "Comic Sans MS", "Trebuchet MS", "Arial Black", "Impact"]

/-- The colours that have a name. -/
def colorNames : List String :=
  ["red", "green", "blue", "yellow", "black", "white", "gray", "purple", "orange", "pink",
    "brown"]

/-- The small form of a character whose small form is a letter of ASCII. The Kelvin sign is the one
such character outside ASCII. -/
def smallLetter (c : Char) : Char :=
  if c.toNat = 0x212A then 'k' else c.toLower

/-- Whether a text is the name of a colour in any case. -/
def isColorName (s : String) : Bool :=
  colorNames.contains (String.ofList (s.toList.map smallLetter))

/-- Whether a text is a number sign with six hexadecimal digits. -/
def isHexColor (s : String) : Bool :=
  match s.toList with
  | '#' :: ds => ds.length = 6 && ds.all fun c => (Decimal.hexValue? c).isSome
  | _ => false

/-- Whether a text names a colour. -/
def isColor (s : String) : Bool :=
  isColorName s || isHexColor s

/-- The greatest size of letters. -/
def largestFontSize : UInt32 :=
  128

/-- The number of characters a subtitle should not exceed. -/
def subtitleLimit : Nat :=
  100

namespace Rule

/-- Examines a video option. -/
def videoOptionFindings (target : String) (o : VideoOption) : List Diagnostic :=
  match o.complaint?, o with
  | some message, _ => [.error "option-range" message target]
  | none, .size s =>
    if s.isWide then []
    else [.warning "aspect-ratio"
      "The resolution is not in 16:9 ratio, which is not optimal for most displays." target]
  | none, _ => []

/-- Examines an audio option. -/
def audioOptionFindings (target : String) (o : AudioOption) : List Diagnostic :=
  match o.complaint? with
  | some message => [.error "option-range" message target]
  | none => []

/-- Examines a text option, which may be one of a subtitle. -/
def textOptionFindings (subtitle : Bool) (target : String) : TextOption → List Diagnostic
  | .position _ =>
    if subtitle then
      [.error "subtitle-position" "Position is not allowed in subtitle elements" target]
    else []
  | .fontSize n =>
    if largestFontSize < n then
      [.error "option-range" "Font size must be between 0 and 128" target]
    else []
  | .font name =>
    if commonFonts.contains name then []
    else [.warning "unknown-font" s!"Font '{name}' may not be installed where the script runs"
      target]
  | .fontColor color | .background color =>
    if isColor color then []
    else [.error "color" s!"Color '{color}' must be a color name or a #rrggbb value" target]
  | .alignment _ => []
  | .size _ => []
  | .effect _ => []

/-- Examines from where to where a piece is cut. -/
def boundsFindings {O : Type} (e : Extract O) : List Diagnostic :=
  if e.stop.toFloat ≤ e.start.toFloat then
    [.error "extract-bounds" "Start time must be before end time" e.name]
  else []

/-- Examines the length of a subtitle. -/
def subtitleFindings (t : TextBlock) : List Diagnostic :=
  if subtitleLimit < t.text.length then
    [.warning "subtitle-length"
      "Subtitle length is long, it is recommended to be less than 100 characters" t.name]
  else []

/-- Examines the options of an element. -/
def elementRangeFindings : Element → List Diagnostic
  | .video v => v.options.flatMap (videoOptionFindings v.name)
  | .videoExtract e => boundsFindings e ++ e.options.flatMap (videoOptionFindings e.name)
  | .audio a => a.options.flatMap (audioOptionFindings a.name)
  | .audioExtract e => boundsFindings e ++ e.options.flatMap (audioOptionFindings e.name)
  | .text t => t.options.flatMap (textOptionFindings false t.name)
  | .subtitle t => subtitleFindings t ++ t.options.flatMap (textOptionFindings true t.name)

/-- Whether a group is for some subtitle. -/
def reachesSubtitle {O : Type} (p : Project) (g : Group O) : Bool :=
  g.members.any fun name =>
    match p.element? name with
    | some element => element.isSubtitle
    | none => false

/-- Examines the options of a group. -/
def groupRangeFindings (p : Project) : OptionGroup → List Diagnostic
  | .video g => g.options.flatMap (videoOptionFindings g.name)
  | .audio g => g.options.flatMap (audioOptionFindings g.name)
  | .text g => g.options.flatMap (textOptionFindings (reachesSubtitle p g) g.name)

/-- Examines all values of a project. -/
def rangeFindings (p : Project) : List Diagnostic :=
  p.elements.flatMap elementRangeFindings ++ p.groups.flatMap (groupRangeFindings p)

end Rule

end Montage
