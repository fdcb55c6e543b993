import Montage.Decimal.Reading
import Montage.Json.Value

/-!
# TOML scalars

Strings in their four forms, numbers, truth values and dates, as TOML writes them. Each reader takes
what it understands from the front of a text and leaves the rest.
-/

namespace Montage.Toml

/-! ## Characters -/

/-- The blanks inside a line. -/
def isBlank (c : Char) : Bool :=
  c = ' ' || c = '\t'

/-- Drops the blanks a text starts with. -/
def skipBlanks (cs : List Char) : List Char :=
  cs.dropWhile isBlank

/-- Whether a character may stand in a comment, and in a string as it is: any but the control
characters, of which only the tab may. -/
def isPlain (c : Char) : Bool :=
  c = '\t' || (32 ≤ c.toNat && c.toNat ≠ 127)

/-- Takes the end of a line. -/
def newline? : List Char → Option (List Char)
  | '\n' :: rest => some rest
  | '\r' :: '\n' :: rest => some rest
  | _ => none

/-- Drops the blanks and the ends of lines a text starts with. -/
def skipBreaks : List Char → List Char
  | '\n' :: rest => skipBreaks rest
  | '\r' :: '\n' :: rest => skipBreaks rest
  | c :: rest => if isBlank c then skipBreaks rest else c :: rest
  | [] => []

/-- Drops the end of a line a text starts with. -/
def dropNewline (cs : List Char) : List Char :=
  (newline? cs).getD cs

/-! ## Strings -/

/-- The number some hexadecimal digits denote. -/
def hexNumber? (ds : List Char) : Option Nat :=
  ds.foldlM (fun n c => (Decimal.hexValue? c).map (16 * n + ·)) 0

/-- The character of a code point. -/
def character? (n : Nat) : Option Char :=
  if h : n.isValidChar then some (Char.ofNatAux n h) else none

/-- The character of a one-letter escape. -/
def shortEscape? (c : Char) : Option Char :=
  if c = '"' then some '"'
  else if c = '\\' then some '\\'
  else if c = 'n' then some '\n'
  else if c = 'r' then some '\r'
  else if c = 't' then some '\t'
  else if c = 'b' then some (Char.ofNat 8)
  else if c = 'f' then some (Char.ofNat 12)
  else none

/-- Reads a number of hexadecimal digits as a character. -/
def codePoint? (count : Nat) (cs : List Char) : Option (Char × List Char) := do
  let ds := cs.take count
  if ds.length = count then
    return (← character? (← hexNumber? ds), cs.drop count)
  else none

/-- Reads an escape behind its backslash. -/
def escape? : List Char → Option (Char × List Char)
  | 'u' :: rest => codePoint? 4 rest
  | 'U' :: rest => codePoint? 8 rest
  | c :: rest => (shortEscape? c).map (·, rest)
  | [] => none

/-- Reads the rest of a string between double quotes, in at most some number of steps. -/
def basicBody? : Nat → List Char → Option (List Char × List Char)
  | 0, _ => none
  | _, [] => none
  | _ + 1, '"' :: rest => some ([], rest)
  | fuel + 1, '\\' :: rest => do
    let (c, rest) ← escape? rest
    let (cs, rest) ← basicBody? fuel rest
    return (c :: cs, rest)
  | fuel + 1, c :: rest =>
    if isPlain c then do
      let (cs, rest) ← basicBody? fuel rest
      return (c :: cs, rest)
    else none

/-- What a run of quotes in a string of several lines means: how many belong to the string, and
whether the string ends. -/
def quoteRun? (count : Nat) : Option (Nat × Bool) :=
  if count ≤ 2 then some (count, false)
  else if count ≤ 5 then some (count - 3, true)
  else none

/-- Reads the rest of a string of several lines between some quotes, in at most some number of
steps. Only between double quotes are there escapes; an escaped end of a line is dropped
together with all blanks that follow. -/
def longBody? (quote : Char) : Nat → List Char → Option (List Char × List Char)
  | 0, _ => none
  | _, [] => none
  | fuel + 1, c :: rest =>
    if c = quote then do
      let quotes := (c :: rest).takeWhile (· = quote)
      let after := (c :: rest).dropWhile (· = quote)
      let (count, ends) ← quoteRun? quotes.length
      if ends then return (quotes.take count, after)
      else
        let (cs, rest) ← longBody? quote fuel after
        return (quotes ++ cs, rest)
    else if c = '\\' ∧ quote = '"' then
      match newline? (skipBlanks rest) with
      | some after => longBody? quote fuel (skipBreaks after)
      | none => do
        let (c, rest) ← escape? rest
        let (cs, rest) ← longBody? quote fuel rest
        return (c :: cs, rest)
    else
      match newline? (c :: rest) with
      | some after => do
        let (cs, rest) ← longBody? quote fuel after
        return ('\n' :: cs, rest)
      | none =>
        if isPlain c then do
          let (cs, rest) ← longBody? quote fuel rest
          return (c :: cs, rest)
        else none

/-- Reads the rest of a string between single quotes. -/
def literalBody? (cs : List Char) : Option (List Char × List Char) :=
  match cs.dropWhile fun c => isPlain c && c ≠ '\'' with
  | '\'' :: rest => some (cs.takeWhile fun c => isPlain c && c ≠ '\'', rest)
  | _ => none

/-- Reads a string of one line. -/
def lineString? : List Char → Option (String × List Char)
  | '"' :: rest => (basicBody? (rest.length + 1) rest).map fun p => (String.ofList p.1, p.2)
  | '\'' :: rest => (literalBody? rest).map fun p => (String.ofList p.1, p.2)
  | _ => none

/-- Reads a string. The end of a line right behind three opening quotes does not count. -/
def string? : List Char → Option (String × List Char)
  | '"' :: '"' :: '"' :: rest =>
    (longBody? '"' (rest.length + 1) (dropNewline rest)).map fun p => (String.ofList p.1, p.2)
  | '\'' :: '\'' :: '\'' :: rest =>
    (longBody? '\'' (rest.length + 1) (dropNewline rest)).map fun p => (String.ofList p.1, p.2)
  | cs => lineString? cs

/-! ## Numbers -/

/-- The digits a text goes on with, where single low lines may stand between digits. -/
def moreDigits (isDigit : Char → Bool) : List Char → List Char × List Char
  | '_' :: d :: rest =>
    if isDigit d then
      let (ds, rest) := moreDigits isDigit rest
      (d :: ds, rest)
    else ([], '_' :: d :: rest)
  | d :: rest =>
    if isDigit d then
      let (ds, rest) := moreDigits isDigit rest
      (d :: ds, rest)
    else ([], d :: rest)
  | [] => ([], [])

/-- Reads digits, of which there must be one. -/
def digits? (isDigit : Char → Bool) : List Char → Option (List Char × List Char)
  | d :: rest =>
    if isDigit d then
      let (ds, rest) := moreDigits isDigit rest
      some (d :: ds, rest)
    else none
  | [] => none

/-- Reads the digits of a whole number: a zero alone, or digits that start with another one. -/
def wholeDigits? : List Char → Option (List Char × List Char)
  | '0' :: rest => some (['0'], rest)
  | cs => digits? Char.isDigit cs

/-- Reads an exponent. -/
def exponent? : List Char → Option (Int × List Char)
  | c :: rest =>
    if c = 'e' ∨ c = 'E' then do
      let (negative, rest) := Decimal.takeSign rest
      let (ds, rest) ← digits? Char.isDigit rest
      let n : Int := Decimal.value ds
      return (if negative then -n else n, rest)
    else none
  | [] => none

/-- Reads a fraction. -/
def fraction? : List Char → Option (List Char × List Char)
  | '.' :: rest => digits? Char.isDigit rest
  | _ => none

/-- Reads a number with a fraction, an exponent or both. -/
def numeral? (cs : List Char) : Option (Decimal.Numeral × List Char) := do
  let (negative, rest) := Decimal.takeSign cs
  let (whole, rest) ← wholeDigits? rest
  match fraction? rest with
  | some (fraction, rest) =>
    match exponent? rest with
    | some (e, rest) => return (⟨negative, whole, fraction, e⟩, rest)
    | none => return (⟨negative, whole, fraction, 0⟩, rest)
  | none =>
    let (e, rest) ← exponent? rest
    return (⟨negative, whole, [], e⟩, rest)

/-- Reads one of the words for numbers that are not finite. -/
def specialFloat? (cs : List Char) : Option (Float × List Char) :=
  let (negative, rest) := Decimal.takeSign cs
  match rest with
  | 'i' :: 'n' :: 'f' :: rest => some (Decimal.signed negative (1.0 / 0.0), rest)
  | 'n' :: 'a' :: 'n' :: rest => some (0.0 / 0.0, rest)
  | _ => none

/-- Gives an integer its value if it fits in 64 bits. -/
def integer (i : Int) : Option Json :=
  if Int64.minValue.toInt ≤ i ∧ i ≤ Int64.maxValue.toInt then some (.int i) else none

/-- The number some digits of a base denote. -/
def valueIn (base : Nat) (ds : List Char) : Nat :=
  ds.foldl (fun n c => base * n + (Decimal.hexValue? c).getD 0) 0

/-- Reads an integer of a base behind its mark. -/
def basedInteger? (base : Nat) (cs : List Char) : Option (Json × List Char) := do
  let isDigit := fun c => match Decimal.hexValue? c with
    | some n => n < base
    | none => false
  let (ds, rest) ← digits? isDigit cs
  return (← integer (valueIn base ds), rest)

/-- Reads an integer. -/
def integer? : List Char → Option (Json × List Char)
  | '0' :: 'x' :: rest => basedInteger? 16 rest
  | '0' :: 'o' :: rest => basedInteger? 8 rest
  | '0' :: 'b' :: rest => basedInteger? 2 rest
  | cs => do
    let (negative, rest) := Decimal.takeSign cs
    let (ds, rest) ← wholeDigits? rest
    let n : Int := Decimal.value ds
    return (← integer (if negative then -n else n), rest)

/-- Reads a number; one that is too large for a double is refused. -/
def number? (cs : List Char) : Option (Json × List Char) :=
  match numeral? cs with
  | some (n, rest) =>
    let x := n.nearest
    if x.isInf && 0.0 < x then none else some (.real x, rest)
  | none =>
    match specialFloat? cs with
    | some (x, rest) => some (.real x, rest)
    | none => integer? cs

/-! ## Dates -/

/-- Reads a number of a fixed count of digits within bounds. -/
def fixedNumber? (count low high : Nat) (cs : List Char) : Option (Nat × List Char) :=
  let ds := cs.take count
  if ds.length = count && ds.all Char.isDigit then
    let n := Decimal.value ds
    if low ≤ n && n ≤ high then some (n, cs.drop count) else none
  else none

/-- Takes one character. -/
def take? (c : Char) : List Char → Option (List Char)
  | d :: rest => if d = c then some rest else none
  | [] => none

/-- The number of days of a month. -/
def daysOf (year month : Nat) : Nat :=
  if month = 2 then
    if year % 4 = 0 ∧ (year % 100 ≠ 0 ∨ year % 400 = 0) then 29 else 28
  else if month = 4 ∨ month = 6 ∨ month = 9 ∨ month = 11 then 30
  else 31

/-- Reads a day of a year. -/
def date? (cs : List Char) : Option (List Char) := do
  let (year, rest) ← fixedNumber? 4 0 9999 cs
  let (month, rest) ← fixedNumber? 2 1 12 (← take? '-' rest)
  let (_, rest) ← fixedNumber? 2 1 (daysOf year month) (← take? '-' rest)
  return rest

/-- Reads a time of a day. -/
def time? (cs : List Char) : Option (List Char) := do
  let (_, rest) ← fixedNumber? 2 0 23 cs
  let (_, rest) ← fixedNumber? 2 0 59 (← take? ':' rest)
  let (_, rest) ← fixedNumber? 2 0 60 (← take? ':' rest)
  match rest with
  | '.' :: more =>
    let (ds, rest) := Decimal.spanDigits more
    if ds.isEmpty then return '.' :: more else return rest
  | rest => return rest

/-- Reads an offset from universal time. -/
def zone? : List Char → Option (List Char)
  | 'Z' :: rest => some rest
  | 'z' :: rest => some rest
  | c :: rest =>
    if c = '+' ∨ c = '-' then do
      let (_, rest) ← fixedNumber? 2 0 23 rest
      let (_, rest) ← fixedNumber? 2 0 59 (← take? ':' rest)
      return rest
    else none
  | [] => none

/-- Reads the time that follows a day. -/
def timeOfDay? : List Char → Option (List Char)
  | c :: rest =>
    if c = 'T' ∨ c = 't' ∨ c = ' ' then do
      let rest ← time? rest
      return (zone? rest).getD rest
    else none
  | [] => none

/-- Takes a day, a time of a day or both off a text. -/
def moment? (cs : List Char) : Option (List Char) :=
  match date? cs with
  | some rest => some ((timeOfDay? rest).getD rest)
  | none => time? cs

/-- The key under which a date stands in a tree; no setting has such a name. -/
def momentKey : String :=
  "$date"

/-- Reads a date. In a tree it is an object that holds its text. -/
def dated? (cs : List Char) : Option (Json × List Char) :=
  (moment? cs).map fun rest =>
    (.object [(momentKey, .string (String.ofList (cs.take (cs.length - rest.length))))], rest)

/-! ## Scalars -/

/-- Reads a value that holds no other values. -/
def scalar? (cs : List Char) : Option (Json × List Char) :=
  match cs with
  | 't' :: 'r' :: 'u' :: 'e' :: rest => some (.bool true, rest)
  | 'f' :: 'a' :: 'l' :: 's' :: 'e' :: rest => some (.bool false, rest)
  | c :: _ =>
    if c = '"' ∨ c = '\'' then (string? cs).map fun p => (.string p.1, p.2)
    else
      match dated? cs with
      | some read => some read
      | none => number? cs
  | [] => none

end Montage.Toml
