import Montage.Document.Options
import Montage.Diagnostic

/-!
# Diagnostics in documents

Severities are numbers; a number without a severity is refused with the wording of the refusal.
-/

namespace Montage

open Json

/-- Reads a severity. -/
def Severity.decode : Decoder Severity := fun ctx v => do
  let n := (← asIntIn 0 255 ctx v).toNat
  match Severity.ofNumber? n with
  | some s => .ok s
  | none => .error (.severity n)

/-- Writes a severity. -/
def Severity.encode (s : Severity) : Json :=
  .int s.number

namespace Diagnostic

/-- Reads a finding. -/
def decode : Decoder Diagnostic :=
  (Diagnostic.mk <$> Record.field "severity" Severity.decode <*> Record.field "rule" asString
    <*> Record.field "message" asString <*> Record.optional "target" asString :
    Record Diagnostic).decode

/-- Writes a finding. -/
def encode (d : Diagnostic) : Json :=
  .object ([("severity", d.severity.encode), ("rule", .string d.rule),
    ("message", .string d.message)] ++ optionalMember "target" Json.string d.target)

end Diagnostic

end Montage
