import Montage.Document.Settings
import Montage.Host
import Montage.Toml.Reader
import Montage.Toml.Writer

/-!
# Settings files

Settings are kept in TOML files. What a file leaves out has its default, what it has besides is
ignored, and a file that is not read in full is refused.
-/

namespace Montage.Settings

/-- Reads settings from the text of a file; the path is for the refusal. -/
def parse (path text : String) : Except Error Settings :=
  match Toml.read? text with
  | none => .error (.settingsUnreadable path)
  | some tree =>
    match decode Json.Context.settings tree with
    | .ok s => .ok s
    | .error _ => .error (.settingsUnreadable path)

/-- The lines on how scripts are written. -/
def scriptText (s : ScriptSettings) : String :=
  Toml.header "generator" ++
    Toml.line "platform" (Toml.stringText s.platform.text) ++
    Toml.line "default_font" (Toml.stringText s.defaultFont) ++
    Toml.line "default_font_size" (Decimal.natText s.defaultFontSize.toNat) ++
    Toml.line "default_font_color" (Toml.stringText s.defaultFontColor) ++
    Toml.line "default_text_duration" (Toml.floatText s.defaultTextDuration) ++
    Toml.line "subtitle_offset_y" (Decimal.intText s.subtitleOffset.toInt) ++ "\n" ++
    Toml.header "generator.canvas" ++
    Toml.line "width" (Decimal.natText s.canvas.width.toNat) ++
    Toml.line "height" (Decimal.natText s.canvas.height.toNat)

/-- The lines on how documents are built. -/
def buildText (s : BuildSettings) : String :=
  Toml.header "build" ++
    Toml.line "debounce_ms" (Decimal.natText s.debounce.toNat) ++
    Toml.line "probe_durations" (if s.probeDurations then "true" else "false") ++
    Toml.line "ffprobe_path" (Toml.stringText s.probeProgram)

/-- The text of a settings file. -/
def text (s : Settings) : String :=
  scriptText s.script ++ "\n" ++ buildText s.build

variable {m : Type → Type} [Monad m]

/-- Reads settings from a file. -/
def load (h : Host m) (path : String) : m (Except Error Settings) := do
  match ← h.readText path with
  | .error _ => return .error (.settingsNotFound path)
  | .ok text => return parse path text

/-- Writes settings to a file. -/
def save (h : Host m) (s : Settings) (path : String) : m (Except Error Unit) := do
  match ← h.writeText path s.text with
  | .error reason => return .error (.system reason)
  | .ok () => return .ok ()

end Montage.Settings
