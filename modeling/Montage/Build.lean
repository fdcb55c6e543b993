import Montage.Build.Change
import Montage.Media.Cache
import Montage.Rule
import Montage.Script.Program

/-!
# Builds

A build examines a project and, unless that finds errors, writes its script and its timeline
records. Builds are independent of each other; all they share are the lengths of media files
that were measured before.
-/

namespace Montage

/-- What builds have in common. Files are measured in a monad of the caller's choice, and effects
are of a type of their choice. -/
structure Builder (m : Type → Type) (E : Type) where
  settings : ScriptSettings := {}
  effects : EffectRegistry E
  rules : List Rule := Rule.all
  /-- How a file is measured; without it no file has a length. -/
  measure : Option (String → m (Except Error Float)) := none
  /-- The directory that paths of files are relative to. -/
  directory : Option String := none

/-- The paths of all media files of a project, each one once. -/
def Project.mediaPaths (p : Project) : List String :=
  (p.elements.filterMap Element.filePath?).eraseDups

/-- The script of a project together with its resolution. -/
def Project.compile {E : Type} [TextEffect E] (p : Project) (settings : ScriptSettings)
    (effects : EffectRegistry E) : Except Error (Resolved × String) := do
  let resolved ← p.resolve
  let script ← resolved.script settings effects
  return (resolved, script)

namespace Builder

variable {m : Type → Type} [Monad m] {E : Type}

/-- Where the file of a path is found. -/
def mediaPath (b : Builder m E) (path : String) : String :=
  match b.directory with
  | some directory => Path.join directory path
  | none => path

/-- Adds the length of a file to the known ones, if it can be measured. -/
def addDuration (b : Builder m E) (measure : String → m (Except Error Float))
    (known : KnownDurations Float) (path : String) :
    StateT (DurationCache Float) m (KnownDurations Float) := do
  match ← DurationCache.lookup measure (b.mediaPath path) with
  | .ok duration => return known ++ [(path, duration)]
  | .error _ => return known

/-- The lengths of the files of a project that can be measured. -/
def knownDurations (b : Builder m E) (p : Project) :
    StateT (DurationCache Float) m (KnownDurations Float) :=
  match b.measure with
  | none => pure []
  | some measure => p.mediaPaths.foldlM (b.addDuration measure) []

/-- What is published of a project. -/
def publish (b : Builder m E) (uri : String) (p : Project) (script : String)
    (records : List TimelineRecord) : Change :=
  let diagnostics := p.diagnoseWith b.rules
  ⟨uri, (Change.envelope p (!Diagnostic.anyError diagnostics) script records).text .compact,
    diagnostics⟩

/-- Builds a project. A project with errors is published without script and records; one that
cannot be resolved although no rule found an error fails. -/
def build [TextEffect E] (b : Builder m E) (uri : String) (p : Project) :
    StateT (DurationCache Float) m (Except Error Change) :=
  if Diagnostic.anyError (p.diagnoseWith b.rules) then return .ok (b.publish uri p "" [])
  else
    match p.compile b.settings b.effects with
    | .error e => return .error e
    | .ok (resolved, script) => do
      let known ← b.knownDurations p
      match resolved.records known b.settings.defaultTextDuration with
      | .error e => return .error e
      | .ok records => return .ok (b.publish uri p script records)

end Builder

end Montage
