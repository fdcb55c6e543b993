import Montage.Json.Value
import Montage.Decimal.Layout

/-!
# JSON texts

Trees are written on one line without blanks, or over several lines with two blanks for each
level. Only quotes, backslashes and control characters below the blank are escaped in strings.
-/

namespace Montage.Json

/-- How a tree is spread over lines. -/
inductive Style where
  | compact
  | pretty
  deriving DecidableEq, Repr

/-- What separates the parts of a container at a nesting level. -/
def Style.gap : Style → Nat → List Char
  | compact, _ => []
  | pretty, level => '\n' :: List.replicate (2 * level) ' '

/-- What separates a key from its value. -/
def Style.colon : Style → List Char
  | compact => [':']
  | pretty => [':', ' ']

/-- Writes one character of a string. -/
def escape (c : Char) : List Char :=
  if c = '"' then ['\\', '"']
  else if c = '\\' then ['\\', '\\']
  else if c = '\n' then ['\\', 'n']
  else if c = '\r' then ['\\', 'r']
  else if c = '\t' then ['\\', 't']
  else if c.toNat = 8 then ['\\', 'b']
  else if c.toNat = 12 then ['\\', 'f']
  else if c.toNat < 32 then
    ['\\', 'u', '0', '0', Decimal.hexDigit (c.toNat / 16), Decimal.hexDigit (c.toNat % 16)]
  else [c]

/-- Writes a string with its quotes. -/
def quoted (s : String) : List Char :=
  '"' :: (s.toList.flatMap escape ++ ['"'])

/-- Writes a number that is not whole by its kind; there is no text for infinity. -/
def realText (x : Float) : List Char :=
  if x.isNaN || x.isInf then "null".toList else (Decimal.Layout.document.text x).toList

mutual

/-- Writes a tree that stands at a nesting level. -/
def write (style : Style) (level : Nat) : Json → List Char
  | null => "null".toList
  | bool b => (if b then "true" else "false").toList
  | int i => (Decimal.intText i).toList
  | real x => realText x
  | string s => quoted s
  | array [] => ['[', ']']
  | array (v :: vs) =>
    '[' :: (style.gap (level + 1) ++ write style (level + 1) v ++
      writeItems style (level + 1) vs ++ style.gap level ++ [']'])
  | object [] => ['\x7b', '\x7d']
  | object ((k, v) :: ms) =>
    '\x7b' :: (style.gap (level + 1) ++ quoted k ++ style.colon ++ write style (level + 1) v ++
      writeMembers style (level + 1) ms ++ style.gap level ++ ['\x7d'])
  | loose => "null".toList
  | unnamed v => write style level v
  | malformed => "null".toList

/-- Writes the items after the first. -/
def writeItems (style : Style) (level : Nat) : List Json → List Char
  | [] => []
  | v :: vs => ',' :: (style.gap level ++ write style level v ++ writeItems style level vs)

/-- Writes the members after the first. -/
def writeMembers (style : Style) (level : Nat) : List (String × Json) → List Char
  | [] => []
  | (k, v) :: ms =>
    ',' :: (style.gap level ++ quoted k ++ style.colon ++ write style level v ++
      writeMembers style level ms)

end

/-- The text of a tree. -/
def text (style : Style) (v : Json) : String :=
  String.ofList (v.write style 0)

end Montage.Json
