import Montage.Decimal.Digits
import Montage.Diagnostic
import Montage.Project
import Montage.Script.Name

/-!
# The rule on names

The film's name must be usable as a file name. Element names must be unique variables of the
script. Entries are numbered upwards from `#1`, or have names that are variables too.
-/

namespace Montage.Rule

/-- Whether a character may stand in the name of a film. -/
def isFileNameChar (c : Char) : Bool :=
  c.isAlphanum || c = '-' || c = '_' || c = '.'

/-- Whether a text can be the name of a film. -/
def isOutputName (s : String) : Bool :=
  !s.isEmpty && s.toList.all isFileNameChar

/-- Examines the name of the film. -/
def outputNameFindings (p : Project) : List Diagnostic :=
  if isOutputName p.outputName then []
  else [.error "output-name" "Invalid output file name" p.outputName]

/-- Examines the form of an element's name. -/
def elementNameFindings (name : String) : List Diagnostic :=
  (if Script.isVariable name then []
    else [.error "element-identifier"
      s!"Element name '{name}' must start with a letter or underscore and contain only letters, digits and underscores"
      name]) ++
  (if name.startsWith Script.entryMark then
    [.error "reserved-element-name"
      s!"Element names starting with '{Script.entryMark}' are reserved for timeline elements" name]
    else [])

/-- Examines the names of elements, some names being taken already. -/
def elementNamesFindings (taken : List String) : List String → List Diagnostic
  | [] => []
  | name :: rest =>
    (if name ∈ taken then [.error "unique-element-name" "Element names must be unique" name]
      else []) ++
    elementNameFindings name ++ elementNamesFindings (name :: taken) rest

/-- Examines whether an element has the name of the letters of a text. -/
def lettersFindings (names : List String) (text : String) : List Diagnostic :=
  let letters := Script.lettersVariable text
  if letters ∈ names then
    [.error "reserved-element-name"
      s!"Element name '{letters}' is reserved by text element '{text}'" letters]
  else []

/-- How an entry is named. -/
inductive EntryName where
  | number (n : Nat)
  /-- A number sign that no number follows. -/
  | misnumbered
  | plain
  deriving DecidableEq, Repr

/-- The greatest number of an entry. -/
def entryNumberLimit : Nat :=
  UInt64.size - 1

/-- Reads the name of an entry. -/
def EntryName.ofString (s : String) : EntryName :=
  match s.toList with
  | '#' :: ds =>
    if ds ≠ [] ∧ ds.all Char.isDigit ∧ Decimal.value ds ≤ entryNumberLimit then
      number (Decimal.value ds)
    else misnumbered
  | _ => plain

/-- The number that follows another one. Numbers have 64 bits; zero follows the largest of them. -/
def numberAfter (n : Nat) : Nat :=
  (UInt64.ofNat n + 1).toNat

/-- Examines the names of entries. Given are whether the first one is the first of the timeline, the
names that are taken, and the last number. Nothing is examined behind a first entry with a
wrong number. -/
def entryNamesFindings (first : Bool) (taken : List String) (last : Nat) :
    List String → List Diagnostic
  | [] => []
  | name :: rest =>
    if name ∈ taken then
      .error "unique-timeline-identifier" "Timeline elements must have unique identifiers" name ::
        entryNamesFindings false taken last rest
    else
      match EntryName.ofString name with
      | .number n =>
        if first then
          if n = 1 then entryNamesFindings false (name :: taken) 1 rest
          else [.error "ordered-timeline-identifier"
            "First timeline element must have identifier #1" name]
        else
          (if n ≤ last then
            [.error "ordered-timeline-identifier"
              s!"Timeline elements must have ordered identifiers (this one should be at least #{Decimal.natText (numberAfter last)})"
              name]
            else []) ++
          entryNamesFindings false (name :: taken) n rest
      | .misnumbered =>
        .error "timeline-identifier" "Timeline identifier must be '#' followed by a number" name ::
          entryNamesFindings false (name :: taken) last rest
      | .plain =>
        (if Script.isVariable name then []
          else [.error "timeline-identifier"
            s!"Timeline identifier '{name}' must be #<number> or a valid identifier" name]) ++
        entryNamesFindings false (name :: taken) last rest

/-- Examines all names of a project. -/
def namingFindings (p : Project) : List Diagnostic :=
  let names := p.elements.map Element.name
  outputNameFindings p ++
    elementNamesFindings [] names ++
    ((p.elements.filter Element.isTextual).map Element.name).flatMap (lettersFindings names) ++
    entryNamesFindings true [] 0 (p.timeline.map Entry.name)

end Montage.Rule
