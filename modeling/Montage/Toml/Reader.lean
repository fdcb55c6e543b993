import Montage.Toml.Scalar
import Montage.Toml.Tree

/-!
# Reading TOML

A document is a sequence of lines: headers of tables and pairs of keys and values. Arrays may
spread over lines and tables between braces may not; both may hold each other up to a limit.
-/

namespace Montage.Toml

/-! ## Keys -/

/-- Whether a character may stand in a key without quotes. -/
def isKeyChar (c : Char) : Bool :=
  c.isAlphanum || c = '-' || c = '_'

/-- Reads one part of a key. -/
def keyPart? (cs : List Char) : Option (String × List Char) :=
  match lineString? cs with
  | some read => some read
  | none =>
    match cs.takeWhile isKeyChar with
    | [] => none
    | name => some (String.ofList name, cs.dropWhile isKeyChar)

/-- The greatest number of nested values, and of parts of a key. -/
def nestingLimit : Nat :=
  79

/-- Reads the parts of a key, at most some number of them. Blanks may surround the dots. -/
def key? : Nat → List Char → Option (List String × List Char)
  | 0, _ => none
  | parts + 1, cs => do
    let (part, rest) ← keyPart? (skipBlanks cs)
    match skipBlanks rest with
    | '.' :: rest =>
      let (more, rest) ← key? parts rest
      return (part :: more, rest)
    | rest => return ([part], rest)

/-! ## Values -/

/-- Drops blanks, ends of lines and comments, inside a comment or outside of one; fails on
characters that no comment may hold. -/
def skipLines? : Bool → List Char → Option (List Char)
  | _, [] => some []
  | _, '\n' :: rest => skipLines? false rest
  | _, '\r' :: '\n' :: rest => skipLines? false rest
  | true, c :: rest => if isPlain c then skipLines? true rest else none
  | false, c :: rest =>
    if isBlank c then skipLines? false rest
    else if c = '#' then skipLines? true rest
    else some (c :: rest)

/-- Reads the items of an array behind its bracket, in at most some number of steps. A comma may
stand behind the last item. -/
def items? (value? : List Char → Option (Json × List Char)) :
    Nat → List Char → Option (List Json × List Char)
  | 0, _ => none
  | fuel + 1, cs => do
    match ← skipLines? false cs with
    | ']' :: rest => return ([], rest)
    | cs =>
      let (v, rest) ← value? cs
      match ← skipLines? false rest with
      | ',' :: rest =>
        let (vs, rest) ← items? value? fuel rest
        return (v :: vs, rest)
      | ']' :: rest => return ([v], rest)
      | _ => none

/-- Reads a key, an equals sign and a value. -/
def pair? (value? : List Char → Option (Json × List Char)) (cs : List Char) :
    Option ((List String × Json) × List Char) := do
  let (key, rest) ← key? nestingLimit cs
  let rest ← take? '=' rest
  let (v, rest) ← value? (skipBlanks rest)
  return ((key, v), skipBlanks rest)

/-- Reads the pairs of a table behind its brace, in at most some number of steps. -/
def pairs? (value? : List Char → Option (Json × List Char)) :
    Nat → List Char → Option (List (List String × Json) × List Char)
  | 0, _ => none
  | fuel + 1, cs => do
    let (pair, rest) ← pair? value? cs
    match rest with
    | ',' :: rest =>
      let (pairs, rest) ← pairs? value? fuel rest
      return (pair :: pairs, rest)
    | '\x7d' :: rest => return ([pair], rest)
    | _ => none

/-- The table some pairs define. -/
def tableOf? (pairs : List (List String × Json)) : Option Json := do
  let items ← pairs.foldlM (fun (items : Items) pair => do
    let (parts, last) ← splitLast pair.1
    items.insert last pair.2 parts) []
  return Items.tree items

/-- Reads a value in which other values are nested to at most some depth. -/
def value? : Nat → List Char → Option (Json × List Char)
  | depth + 1, '[' :: rest =>
    (items? (value? depth) (rest.length + 1) rest).map fun p => (.array p.1, p.2)
  | depth + 1, '\x7b' :: rest =>
    match skipBlanks rest with
    | '\x7d' :: rest => some (.object [], rest)
    | _ => do
      let (pairs, rest) ← pairs? (value? depth) (rest.length + 1) rest
      return (← tableOf? pairs, rest)
  | _, cs => scalar? cs

/-! ## Documents -/

/-- Reads the rest of a line: blanks, a comment if there is one, and the end. -/
def lineEnd? (cs : List Char) : Option (List Char) :=
  let rest :=
    match skipBlanks cs with
    | '#' :: comment => comment.dropWhile isPlain
    | rest => rest
  match rest with
  | [] => some []
  | rest => newline? rest

/-- Reads a line that is neither empty nor a comment. -/
def statement? : List Char → Option (Statement × List Char)
  | '[' :: '[' :: rest => do
    let (key, rest) ← key? nestingLimit rest
    let rest ← take? ']' (← take? ']' rest)
    return (.listed key, ← lineEnd? rest)
  | '[' :: rest => do
    let (key, rest) ← key? nestingLimit rest
    let rest ← take? ']' rest
    return (.table key, ← lineEnd? rest)
  | cs => do
    let ((key, v), rest) ← pair? (value? nestingLimit) cs
    return (.pair key v, ← lineEnd? rest)

/-- Reads the lines of a document, in at most some number of steps. -/
def statements? : Nat → List Char → Option (List Statement)
  | 0, _ => none
  | fuel + 1, cs => do
    match ← skipLines? false cs with
    | [] => return []
    | cs =>
      let (s, rest) ← statement? cs
      let more ← statements? fuel rest
      return s :: more

/-- Drops the mark that tells the order of bytes. -/
def skipByteOrderMark : List Char → List Char
  | c :: rest => if c.toNat = 0xFEFF then rest else c :: rest
  | [] => []

/-- Reads a document as a tree; its tables are objects. -/
def read? (s : String) : Option Json := do
  let cs := skipByteOrderMark s.toList
  let statements ← statements? (cs.length + 1) cs
  let document ← statements.foldlM Document.add .empty
  return document.items.tree

end Montage.Toml
