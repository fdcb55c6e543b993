import Montage.Build.Watch
import Montage.Command.Help
import Montage.Settings.File
import Montage.Text.Quoted

/-!
# Commands

The tasks of the command line, done with the means of a host. What is shown goes to two places:
results to the output, findings and failures to the errors. A failure is shown with its causes.
-/

namespace Montage.Command

/-- A failure with its causes, the outermost first. -/
structure Failure where
  message : String
  causes : List String
  deriving DecidableEq, Repr

namespace Failure

/-- An error with its detail as the cause. -/
def ofError (e : Error) : Failure :=
  ⟨e.message, [e.detail]⟩

/-- An error that is the cause of a failure. -/
def because (message : String) (e : Error) : Failure :=
  ⟨message, [e.message, e.detail]⟩

/-- A text whose lines after the first are set in. -/
def setIn (blanks : String) (text : String) : String :=
  String.ofList (text.toList.flatMap fun c => if c = '\n' then c :: blanks.toList else [c])

/-- The causes, one a line; several are numbered. -/
def causeLines (causes : List String) : List String :=
  match causes with
  | [cause] => ["    " ++ setIn "    " cause]
  | causes => causes.zipIdx.map fun c =>
    "    " ++ Decimal.natText c.2 ++ ": " ++ setIn "       " c.1

/-- A failure as it is shown. -/
def text (f : Failure) : String :=
  let causes := if f.causes.isEmpty then [] else "" :: "Caused by:" :: causeLines f.causes
  String.join ((s!"Error: {f.message}" :: causes).map (· ++ "\n"))

end Failure

/-- What was shown so far. -/
structure Screen where
  output : String := ""
  errors : String := ""
  deriving DecidableEq, Repr

/-- How a command line ended. -/
structure Outcome where
  exitCode : Nat
  screen : Screen
  deriving DecidableEq, Repr

/-- Work that shows things and may fail. -/
abbrev Work (m : Type → Type) := ExceptT Failure (StateT Screen m)

variable {m : Type → Type} [Monad m]

/-- Shows a result. -/
def display (text : String) : Work m Unit :=
  modify fun s => { s with output := s.output ++ text }

/-- Shows findings, one a line. -/
def report (ds : List Diagnostic) : Work m Unit :=
  modify fun s => { s with errors := s.errors ++ String.join (ds.map fun d => d.text ++ "\n") }

/-- Asks the host for something. -/
def ask {α : Type} (action : m α) : Work m α :=
  liftM (liftM action : StateT Screen m α)

/-- Goes on with a result, or fails. -/
def orFail {α : Type} (failure : Error → Failure) : Except Error α → Work m α
  | .ok a => pure a
  | .error e => throw (failure e)

/-- The settings a task is done with. -/
def settingsFor (h : Host m) (i : Invocation) : Work m Settings := do
  let s ← match i.settingsPath with
    | some path => ask (Settings.load h path) >>= orFail .ofError
    | none => pure {}
  let s := match i.platform with
    | some platform => { s with script := { s.script with platform := platform } }
    | none => s
  orFail .ofError s.validate
  return s

/-- Reads a project from a file. -/
def loadProject (h : Host m) (path : String) : m (Except Error Project) := do
  match ← h.readText path with
  | .error _ => return .error (.projectNotFound path)
  | .ok text => return Project.parse text

/-- The project of a file. -/
def projectAt (h : Host m) (path : String) : Work m Project := do
  ask (loadProject h path) >>= orFail (.because s!"Failed to load project {Text.quoted path}")

/-- The project of a file, if nothing is wrong with it. -/
def usableProject (h : Host m) (path : String) : Work m Project := do
  let p ← projectAt h path
  let findings := p.diagnose
  report findings
  if Diagnostic.anyError findings then
    throw ⟨s!"{Text.quoted path} has errors, nothing generated", []⟩
  return p

/-- The builder for the project of a file. -/
def builderFor (h : Host m) (s : Settings) (path : String) :
    Builder m LetterEffect where
  settings := s.script
  effects := .standard
  measure := if s.build.probeDurations then some (h.measure s.build.probeProgram) else none
  directory := some (Path.parent path)

/-- Writes the script of a project. -/
def generate (h : Host m) (s : Settings) (path : String) (target : Target) : Work m Unit := do
  let p ← usableProject h path
  let (_, script) ← orFail .ofError (p.compile s.script .standard)
  match target with
  | .screen => display script
  | .file directory =>
    let destination := Path.join (directory.getD ".") (p.outputName ++ ".py")
    match ← ask (h.writeText destination script) with
    | .ok () => pure ()
    | .error reason => throw ⟨s!"Failed to write {Text.quoted destination}", [reason]⟩

/-- Shows the timeline records of a project. -/
def timeline (h : Host m) (s : Settings) (path : String) : Work m Unit := do
  let p ← usableProject h path
  let resolved ← orFail .ofError p.resolve
  let (known, _) ← ask ((builderFor h s path).knownDurations p |>.run .empty)
  let records ← orFail .ofError (resolved.records known s.script.defaultTextDuration)
  display ((Json.array (records.map TimelineRecord.encode)).text .pretty ++ "\n")

/-- Shows what is wrong with a project. -/
def check (h : Host m) (path : String) : Work m Unit := do
  let p ← projectAt h path
  let findings := p.diagnose
  report findings
  let errors := (findings.filter Diagnostic.isError).length
  if errors ≠ 0 then
    throw ⟨s!"{Decimal.natText errors} error(s) in {Text.quoted path}", []⟩

/-- Does a task. Of watching only the beginning is done here, since it has no end. -/
def perform (h : Host m) (i : Invocation) : Work m Unit := do
  let s ← settingsFor h i
  match i.task with
  | .generate path target => generate h s path target
  | .timeline path => timeline h s path
  | .check path => check h path
  | .watch path => ask (h.checkWatch path) >>= orFail .ofError
  | .initSettings path => ask (({} : Settings).save h path) >>= orFail .ofError

/-- Does a task and shows its failure. -/
def run (h : Host m) (i : Invocation) : m Outcome := do
  let (result, screen) ← ((perform h i).run).run {}
  match result with
  | .ok () => return ⟨0, screen⟩
  | .error f => return ⟨1, { screen with errors := screen.errors ++ f.text }⟩

/-- Does what a command line asks for. -/
def execute (h : Host m) (arguments : List String) : m Outcome :=
  match parse arguments with
  | .ok i => run h i
  | .error (.help topic) => return ⟨0, { output := topic.page }⟩
  | .error .version => return ⟨0, { output := versionText }⟩
  | .error .usage => return ⟨2, { errors := (Topic.program false).page }⟩

end Montage.Command
