import Montage.Document.Options
import Montage.Settings

/-!
# Settings in documents

Every setting may be left out and then has its default.
-/

namespace Montage

open Json

/-- Reads a platform. -/
def Platform.decode : Decoder Platform :=
  asName [("windows", .windows), ("other", .other)]

/-- Writes a platform. -/
def Platform.encode (p : Platform) : Json :=
  .string p.text

namespace ScriptSettings

/-- Reads how scripts are written. -/
def decode : Decoder ScriptSettings :=
  let d : ScriptSettings := {}
  (ScriptSettings.mk <$> Record.fieldOr "platform" d.platform Platform.decode
    <*> Record.fieldOr "canvas" d.canvas Canvas.decode
    <*> Record.fieldOr "default_font" d.defaultFont asString
    <*> Record.fieldOr "default_font_size" d.defaultFontSize asUInt32
    <*> Record.fieldOr "default_font_color" d.defaultFontColor asString
    <*> Record.fieldOr "default_text_duration" d.defaultTextDuration asFloat
    <*> Record.fieldOr "subtitle_offset_y" d.subtitleOffset asInt64 :
    Record ScriptSettings).decode

/-- Writes how scripts are written. -/
def encode (s : ScriptSettings) : Json :=
  .object [("platform", s.platform.encode), ("canvas", s.canvas.encode),
    ("default_font", .string s.defaultFont),
    ("default_font_size", .int s.defaultFontSize.toNat),
    ("default_font_color", .string s.defaultFontColor),
    ("default_text_duration", .real s.defaultTextDuration),
    ("subtitle_offset_y", .int s.subtitleOffset.toInt)]

end ScriptSettings

namespace BuildSettings

/-- Reads how documents are built. -/
def decode : Decoder BuildSettings :=
  let d : BuildSettings := {}
  (BuildSettings.mk <$> Record.fieldOr "debounce_ms" d.debounce asUInt64
    <*> Record.fieldOr "probe_durations" d.probeDurations asBool
    <*> Record.fieldOr "ffprobe_path" d.probeProgram asString : Record BuildSettings).decode

/-- Writes how documents are built. -/
def encode (s : BuildSettings) : Json :=
  .object [("debounce_ms", .int s.debounce.toNat), ("probe_durations", .bool s.probeDurations),
    ("ffprobe_path", .string s.probeProgram)]

end BuildSettings

namespace Settings

/-- Reads all settings. -/
def decode : Decoder Settings :=
  let d : Settings := {}
  (Settings.mk <$> Record.fieldOr "generator" d.script ScriptSettings.decode
    <*> Record.fieldOr "build" d.build BuildSettings.decode : Record Settings).decode

/-- Writes all settings. -/
def encode (s : Settings) : Json :=
  .object [("generator", s.script.encode), ("build", s.build.encode)]

end Settings

end Montage
