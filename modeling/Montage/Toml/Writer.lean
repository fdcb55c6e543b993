import Montage.Decimal.Layout

/-!
# Writing TOML

A string is written in the plainest form that can hold it: between double quotes, between single
quotes when that saves escapes, and between three quotes when neither will do.
-/

namespace Montage.Toml

/-- Whether a character has no form but an escape. -/
def needsEscape (c : Char) : Bool :=
  (c.toNat < 32 && c ≠ '\t' && c ≠ '\n') || c.toNat = 127

/-- The length of the longest run of a character in a text, where the run at its front goes on from
some length. -/
def longestRun (quote : Char) : Nat → List Char → Nat
  | run, [] => run
  | run, c :: rest =>
    if c = quote then longestRun quote (run + 1) rest else max run (longestRun quote 0 rest)

/-- A hexadecimal digit in upper case. -/
def upperHexDigit (n : Nat) : Char :=
  (Decimal.hexDigit n).toUpper

/-- The escape of a character. -/
def escaped (c : Char) : List Char :=
  if c = '"' then ['\\', '"']
  else if c = '\\' then ['\\', '\\']
  else if c = '\n' then ['\\', 'n']
  else if c = '\r' then ['\\', 'r']
  else if c = '\t' then ['\\', 't']
  else if c.toNat = 8 then ['\\', 'b']
  else if c.toNat = 12 then ['\\', 'f']
  else ['\\', 'u', '0', '0', upperHexDigit (c.toNat / 16), upperHexDigit (c.toNat % 16)]

/-- Writes the characters of a string between double quotes. -/
def basicChars (cs : List Char) : List Char :=
  cs.flatMap fun c =>
    if c = '"' || c = '\\' || c.toNat < 32 || c.toNat = 127 then escaped c else [c]

/-- Writes the characters of a string between three double quotes, after some quotes in a row. Every
third quote in a row is escaped. -/
def longChars : Nat → List Char → List Char
  | _, [] => []
  | quotes, c :: rest =>
    if c = '"' then
      if quotes < 2 then c :: longChars (quotes + 1) rest else escaped c ++ longChars 0 rest
    else if c = '\n' then c :: longChars 0 rest
    else if c = '\\' || c.toNat < 32 || c.toNat = 127 then escaped c ++ longChars 0 rest
    else c :: longChars 0 rest

/-- The form of a string. -/
inductive StringForm where
  | basic
  | literal
  | longBasic
  | longLiteral
  deriving DecidableEq, Repr

/-- The form a string is written in. -/
def StringForm.of (cs : List Char) : StringForm :=
  let codes := cs.any needsEscape
  let backslash := cs.contains '\\'
  let breaks := cs.contains '\n'
  let double := longestRun '"' 0 cs
  let single := longestRun '\'' 0 cs
  if !codes && !backslash && double = 0 && !breaks then basic
  else if !codes && single = 0 && !breaks then literal
  else if !codes && !backslash && double ≤ 2 then longBasic
  else if !codes && single ≤ 2 then longLiteral
  else if breaks then longBasic
  else basic

/-- The text of a string. Several lines start on a line of their own. -/
def stringText (s : String) : String :=
  let cs := s.toList
  let opening := if cs.contains '\n' then "\n" else ""
  match StringForm.of cs with
  | .basic => "\"" ++ String.ofList (basicChars cs) ++ "\""
  | .literal => "'" ++ s ++ "'"
  | .longBasic => "\"\"\"" ++ opening ++ String.ofList (longChars 0 cs) ++ "\"\"\""
  | .longLiteral => "'''" ++ opening ++ s ++ "'''"

/-- The text of a number. -/
def floatText (x : Float) : String :=
  if x.isNaN then "nan"
  else if x.isInf then (if x < 0.0 then "-inf" else "inf")
  else Decimal.Layout.settings.text x

/-- The line of a key. -/
def line (key value : String) : String :=
  s!"{key} = {value}\n"

/-- The header of a table. -/
def header (name : String) : String :=
  s!"[{name}]\n"

end Montage.Toml
