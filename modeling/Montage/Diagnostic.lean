/-!
# Diagnostics

What the examination of a project reports: how severe a finding is, which rule made it, what it
says and whom it concerns.
-/

namespace Montage

/-- How severe a finding is. -/
inductive Severity where
  | error
  | warning
  | information
  | hint
  deriving DecidableEq, Repr

namespace Severity

/-- The number of a severity. -/
def number : Severity → Nat
  | error => 1
  | warning => 2
  | information => 3
  | hint => 4

/-- The severity of a number. -/
def ofNumber? : Nat → Option Severity
  | 1 => some error
  | 2 => some warning
  | 3 => some information
  | 4 => some hint
  | _ => none

/-- The word for a severity. -/
def text : Severity → String
  | error => "error"
  | warning => "warning"
  | information => "info"
  | hint => "hint"

end Severity

/-- A finding. -/
structure Diagnostic where
  severity : Severity
  /-- The check that made the finding. -/
  rule : String
  message : String
  /-- The element, group or entry concerned. -/
  target : Option String
  deriving DecidableEq, Repr

namespace Diagnostic

/-- A finding that makes a project unusable. -/
def error (rule message target : String) : Diagnostic :=
  ⟨.error, rule, message, some target⟩

/-- A finding that a project can live with. -/
def warning (rule message target : String) : Diagnostic :=
  ⟨.warning, rule, message, some target⟩

/-- Whether a finding makes a project unusable. -/
def isError (d : Diagnostic) : Bool :=
  d.severity = .error

/-- A finding on one line. -/
def text (d : Diagnostic) : String :=
  match d.target with
  | some target => s!"{d.severity.text}[{d.rule}] {target}: {d.message}"
  | none => s!"{d.severity.text}[{d.rule}]: {d.message}"

/-- Whether some finding makes a project unusable. -/
def anyError (ds : List Diagnostic) : Bool :=
  ds.any isError

end Diagnostic

end Montage
