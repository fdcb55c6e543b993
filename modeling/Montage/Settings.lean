import Montage.Canvas
import Montage.Decimal.Layout
import Montage.Error
import Montage.Text.Blank

/-!
# Settings

What can be configured: how scripts are written and how documents are built. Settings are
checked in a fixed order, and the first one that is out of its range is reported.
-/

namespace Montage

/-- The kind of system a script runs on. Only the naming of fonts depends on it. -/
inductive Platform where
  | windows
  | other
  deriving DecidableEq, Repr

namespace Platform

/-- The name of a platform in settings. -/
def text : Platform → String
  | windows => "windows"
  | other => "other"

/-- Reads the name of a platform in any case. -/
def parse (s : String) : Except Error Platform :=
  let name := Text.lowerAscii s
  if name = "windows" ∨ name = "win" then .ok windows
  else if name = "other" ∨ name = "linux" ∨ name = "macos" ∨ name = "unix" then .ok other
  else .error (.invalidSetting "generator.platform" s)

end Platform

/-- How scripts are written. -/
structure ScriptSettings where
  platform : Platform := .other
  canvas : Canvas := .standard
  /-- The font of texts that name none. -/
  defaultFont : String := "Arial"
  defaultFontSize : UInt32 := 60
  defaultFontColor : String := "white"
  /-- How long a text is shown when its entry does not say, in seconds. -/
  defaultTextDuration : Float := 5.0
  /-- How far from the top subtitles are shown. -/
  subtitleOffset : Int64 := 400
  deriving DecidableEq, Repr

/-- How documents are built. -/
structure BuildSettings where
  /-- How long no edit may come before a build starts, in milliseconds. -/
  debounce : UInt64 := 300
  /-- Whether media files are measured. -/
  probeDurations : Bool := true
  probeProgram : String := "ffprobe"
  deriving DecidableEq, Repr

/-- All settings. -/
structure Settings where
  script : ScriptSettings := {}
  build : BuildSettings := {}
  deriving DecidableEq, Repr

instance : Inhabited ScriptSettings := ⟨{}⟩
instance : Inhabited BuildSettings := ⟨{}⟩
instance : Inhabited Settings := ⟨{}⟩

/-- A double as messages show it. -/
def floatText (x : Float) : String :=
  if x.isNaN then "NaN"
  else if x.isInf then (if x < 0.0 then "-inf" else "inf")
  else Decimal.Layout.plain.text x

namespace ScriptSettings

/-- How a font is named to the script: by its file on Windows, by its name elsewhere. -/
def fontArgument (s : ScriptSettings) (font : Option String) : String :=
  let font := font.getD s.defaultFont
  match s.platform with
  | .windows => s!"C:/Windows/Fonts/{font}.ttf"
  | .other => font

/-- Refuses settings no script can be written with. -/
def validate (s : ScriptSettings) : Except Error Unit :=
  if s.canvas.width = 0 ∨ s.canvas.height = 0 then
    .error (.invalidSetting "generator.canvas"
      (Decimal.natText s.canvas.width.toNat ++ "x" ++ Decimal.natText s.canvas.height.toNat))
  else if s.defaultTextDuration ≤ 0.0 then
    .error (.invalidSetting "generator.default_text_duration" (floatText s.defaultTextDuration))
  else if s.defaultFontSize < 1 ∨ 128 < s.defaultFontSize then
    .error (.invalidSetting "generator.default_font_size"
      (Decimal.natText s.defaultFontSize.toNat))
  else if Text.isAllBlank s.defaultFont then
    .error (.invalidSetting "generator.default_font" s.defaultFont)
  else .ok ()

end ScriptSettings

/-- Refuses settings no document can be built with. -/
def BuildSettings.validate (s : BuildSettings) : Except Error Unit :=
  if s.probeDurations ∧ Text.isAllBlank s.probeProgram then
    .error (.invalidSetting "build.ffprobe_path" s.probeProgram)
  else .ok ()

/-- Refuses settings that are out of range. -/
def Settings.validate (s : Settings) : Except Error Unit := do
  s.script.validate
  s.build.validate

end Montage
