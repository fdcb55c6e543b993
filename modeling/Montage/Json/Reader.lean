import Montage.Json.Value
import Montage.Decimal.Reading

/-!
# Reading JSON

The reader accepts strict JSON: no comments, no trailing commas, no control characters in
strings, no leading zeros. It never fails: where the text stops being JSON the tree ends in
a malformed leaf, and a document says whether anything but blanks follows its tree.
-/

namespace Montage.Json

/-- The blanks that may stand between tokens. -/
def isBlank (c : Char) : Bool :=
  c = ' ' || c = '\n' || c = '\t' || c = '\r'

/-- Drops the blanks a text starts with. -/
def skipBlanks (cs : List Char) : List Char :=
  cs.dropWhile isBlank

/-- The code unit of a four-digit escape. -/
def codeUnit? (a b c d : Char) : Option Nat := do
  let a ← Decimal.hexValue? a
  let b ← Decimal.hexValue? b
  let c ← Decimal.hexValue? c
  let d ← Decimal.hexValue? d
  return ((a * 16 + b) * 16 + c) * 16 + d

/-- The character of a one-letter escape. -/
def shortEscape? (c : Char) : Option Char :=
  if c = '"' then some '"'
  else if c = '\\' then some '\\'
  else if c = '/' then some '/'
  else if c = 'n' then some '\n'
  else if c = 'r' then some '\r'
  else if c = 't' then some '\t'
  else if c = 'b' then some (Char.ofNat 8)
  else if c = 'f' then some (Char.ofNat 12)
  else none

/-- Whether a code unit is the first half of a surrogate pair. -/
def isHighHalf (n : Nat) : Bool :=
  0xD800 ≤ n && n < 0xDC00

/-- Whether a code unit is the second half of a surrogate pair. -/
def isLowHalf (n : Nat) : Bool :=
  0xDC00 ≤ n && n < 0xE000

/-- One unit of a string as it is written: a character, or an escaped half of a surrogate pair. -/
inductive Piece where
  | whole (c : Char)
  | half (n : Nat)
  deriving DecidableEq, Repr

/-- The piece a four-digit escape stands for. -/
def Piece.ofUnit (n : Nat) : Piece :=
  if isHighHalf n || isLowHalf n then half n else whole (Char.ofNat n)

/-- Reads the pieces of a string up to its closing quote; fails where the text is no string. -/
def pieces? : List Char → Option (List Piece × List Char)
  | [] => none
  | '"' :: rest => some ([], rest)
  | '\\' :: 'u' :: a :: b :: c :: d :: rest =>
    match codeUnit? a b c d with
    | none => none
    | some n => (pieces? rest).map fun p => (Piece.ofUnit n :: p.1, p.2)
  | '\\' :: c :: rest =>
    match shortEscape? c with
    | none => none
    | some c => (pieces? rest).map fun p => (Piece.whole c :: p.1, p.2)
  | c :: rest =>
    if c = '\\' || c.toNat < 32 then none
    else (pieces? rest).map fun p => (Piece.whole c :: p.1, p.2)

/-- Joins surrogate halves to characters; fails on a half without its partner. -/
def joinPieces? : List Piece → Option (List Char)
  | [] => some []
  | .whole c :: rest => (joinPieces? rest).map (c :: ·)
  | .half n :: .half m :: rest =>
    if isHighHalf n && isLowHalf m then
      let c := Char.ofNat (0x10000 + (n - 0xD800) * 0x400 + (m - 0xDC00))
      (joinPieces? rest).map (c :: ·)
    else none
  | .half _ :: _ => none

/-- Reads a string behind its opening quote. Its value is missing when a surrogate half stands
alone. -/
def string? (cs : List Char) : Option (Option String × List Char) :=
  (pieces? cs).map fun p => ((joinPieces? p.1).map String.ofList, p.2)

/-- Reads the whole part of a number: a zero alone, or digits that start with another one. -/
def wholePart? (cs : List Char) : Option (List Char × List Char) :=
  match Decimal.spanDigits cs with
  | ([], _) => none
  | ('0' :: _ :: _, _) => none
  | (ds, rest) => some (ds, rest)

/-- Reads the fraction of a number, if it has one. -/
def fractionPart? : List Char → Option (Option (List Char) × List Char)
  | '.' :: cs =>
    match Decimal.spanDigits cs with
    | ([], _) => none
    | (ds, rest) => some (some ds, rest)
  | cs => some (none, cs)

/-- Reads the digits of an exponent. -/
def exponentDigits? (negative : Bool) (cs : List Char) : Option (Option Int × List Char) :=
  match Decimal.spanDigits cs with
  | ([], _) => none
  | (ds, rest) =>
    let n : Int := Decimal.value ds
    some (some (if negative then -n else n), rest)

/-- Reads the exponent of a number, if it has one. -/
def exponentPart? : List Char → Option (Option Int × List Char)
  | 'e' :: '+' :: cs => exponentDigits? false cs
  | 'e' :: '-' :: cs => exponentDigits? true cs
  | 'e' :: cs => exponentDigits? false cs
  | 'E' :: '+' :: cs => exponentDigits? false cs
  | 'E' :: '-' :: cs => exponentDigits? true cs
  | 'E' :: cs => exponentDigits? false cs
  | cs => some (none, cs)

/-- The leaf of a number that is no whole number of 64 bits. -/
def realLeaf (n : Decimal.Numeral) : Json :=
  match n.stepwise? with
  | some x => real x
  | none => loose

/-- The leaf of a number without fraction and exponent. A negative zero is no whole number. -/
def wholeLeaf (negative : Bool) (ds : List Char) : Json :=
  let n := Decimal.value ds
  if negative then
    if 0 < n ∧ Int64.minValue.toInt ≤ -n then int (-n) else realLeaf ⟨true, ds, [], 0⟩
  else
    if n < UInt64.size then int n else realLeaf ⟨false, ds, [], 0⟩

/-- Reads a number without its sign. -/
def magnitude? (negative : Bool) (cs : List Char) : Option (Json × List Char) := do
  let (whole, cs) ← wholePart? cs
  let (fraction, cs) ← fractionPart? cs
  let (exponent, cs) ← exponentPart? cs
  match fraction, exponent with
  | none, none => return (wholeLeaf negative whole, cs)
  | _, _ => return (realLeaf ⟨negative, whole, fraction.getD [], exponent.getD 0⟩, cs)

/-- Reads a number. -/
def number? : List Char → Option (Json × List Char)
  | '-' :: cs => magnitude? true cs
  | cs => magnitude? false cs

/-- Reads a leaf other than a string. -/
def leaf? : List Char → Option (Json × List Char)
  | 'n' :: 'u' :: 'l' :: 'l' :: cs => some (null, cs)
  | 't' :: 'r' :: 'u' :: 'e' :: cs => some (bool true, cs)
  | 'f' :: 'a' :: 'l' :: 's' :: 'e' :: cs => some (bool false, cs)
  | cs => number? cs

/-- The member of a key, which may have no value, and a tree. -/
def memberOf : Option String → Json → String × Json
  | some key, v => (key, v)
  | none, v => ("", unnamed v)

mutual

/-- Reads a tree. The rest of the text is given unless reading had to stop. -/
def readValue : Nat → List Char → Json × Option (List Char)
  | 0, _ => (malformed, none)
  | fuel + 1, cs =>
    match skipBlanks cs with
    | '"' :: cs =>
      match string? cs with
      | some (some s, rest) => (string s, some rest)
      | some (none, rest) => (loose, some rest)
      | none => (malformed, none)
    | '[' :: cs =>
      match skipBlanks cs with
      | ']' :: rest => (array [], some rest)
      | _ =>
        let (items, rest) := readItems fuel cs
        (array items, rest)
    | '\x7b' :: cs =>
      match skipBlanks cs with
      | '\x7d' :: rest => (object [], some rest)
      | _ =>
        let (members, rest) := readMembers fuel cs
        (object members, rest)
    | cs =>
      match leaf? cs with
      | some (v, rest) => (v, some rest)
      | none => (malformed, none)

/-- Reads the items of an array up to its closing bracket. -/
def readItems : Nat → List Char → List Json × Option (List Char)
  | 0, _ => ([malformed], none)
  | fuel + 1, cs =>
    match readValue fuel cs with
    | (v, none) => ([v], none)
    | (v, some rest) =>
      match skipBlanks rest with
      | ',' :: rest =>
        let (vs, rest) := readItems fuel rest
        (v :: vs, rest)
      | ']' :: rest => ([v], some rest)
      | _ => ([v, malformed], none)

/-- Reads the members of an object up to its closing brace. -/
def readMembers : Nat → List Char → List (String × Json) × Option (List Char)
  | 0, _ => ([("", malformed)], none)
  | fuel + 1, cs =>
    match skipBlanks cs with
    | '"' :: cs =>
      match string? cs with
      | some (key, rest) =>
        match skipBlanks rest with
        | ':' :: rest =>
          match readValue fuel rest with
          | (v, none) => ([memberOf key v], none)
          | (v, some rest) =>
            match skipBlanks rest with
            | ',' :: rest =>
              let (ms, rest) := readMembers fuel rest
              (memberOf key v :: ms, rest)
            | '\x7d' :: rest => ([memberOf key v], some rest)
            | _ => ([memberOf key v, ("", malformed)], none)
        | _ => ([("", malformed)], none)
      | none => ([("", malformed)], none)
    | _ => ([("", malformed)], none)

end

/-- A text read as JSON: the tree, and whether only blanks follow it. -/
structure Document where
  root : Json
  complete : Bool
  deriving Inhabited, Repr

/-- Reads a text. -/
def read (s : String) : Document :=
  let cs := s.toList
  match readValue (2 * cs.length + 2) cs with
  | (v, some rest) => ⟨v, (skipBlanks rest).isEmpty⟩
  | (v, none) => ⟨v, false⟩

end Montage.Json
