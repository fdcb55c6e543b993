import Montage.Json.Value

/-!
# TOML tables

A TOML document defines its tables piece by piece: by headers, by headers of lists of tables, and
by keys with several parts. How a table came about decides whether it may be extended: a table
with a header has no second one, and keys with several parts extend only tables that such
keys made.
-/

namespace Montage.Toml

/-- How a table came about. -/
inductive Origin where
  /-- It has a header. -/
  | header
  /-- The header of a table inside it made it. -/
  | implied
  /-- A key with several parts made it. -/
  | dotted
  deriving DecidableEq, Repr

/-- What stands behind a key. -/
inductive Node where
  | value (v : Json)
  | table (origin : Origin) (items : List (String × Node))
  /-- The tables of a list, each of which has a header. -/
  | tables (items : List (List (String × Node)))
  deriving Inhabited

/-- The keys of a table with what stands behind them. -/
abbrev Items := List (String × Node)

namespace Items

/-- Puts something behind a key that is there. -/
def replace (key : String) (node : Node) (items : Items) : Items :=
  items.map fun i => if i.1 = key then (key, node) else i

/-- Changes the last table of a list. -/
def onLast (change : Items → Option Items) (tables : List Items) : Option (List Items) := do
  let last ← tables.getLast?
  return tables.dropLast ++ [← change last]

/-- Puts a value behind a key in the table that the other parts of the key lead to. -/
def insert (key : String) (v : Json) : List String → Items → Option Items
  | [], items => if (items.lookup key).isSome then none else some (items ++ [(key, .value v)])
  | part :: parts, items =>
    match items.lookup part with
    | none => do
      let inner ← insert key v parts []
      return items ++ [(part, .table .dotted inner)]
    | some (.table .dotted inner) => do
      let inner ← insert key v parts inner
      return items.replace part (.table .dotted inner)
    | some (.table .implied inner) =>
      if parts = [] then none
      else do
        let inner ← insert key v parts inner
        return items.replace part (.table .implied inner)
    | some (.tables tables) =>
      if parts = [] then none
      else do
        let tables ← onLast (insert key v parts) tables
        return items.replace part (.tables tables)
    | some _ => none

/-- Changes the table that some parts lead to, or the items that hold its last part. Tables on the
way that do not exist are made. -/
def descend (change : Items → Option Items) : List String → Items → Option Items
  | [], items => change items
  | part :: parts, items =>
    match items.lookup part with
    | none => do
      let inner ← descend change parts []
      return items ++ [(part, .table .implied inner)]
    | some (.table origin inner) => do
      let inner ← descend change parts inner
      return items.replace part (.table origin inner)
    | some (.tables tables) => do
      let tables ← onLast (descend change parts) tables
      return items.replace part (.tables tables)
    | some (.value _) => none

/-- Gives the table behind a key its header. -/
def openTable (key : String) (items : Items) : Option Items :=
  match items.lookup key with
  | none => some (items ++ [(key, .table .header [])])
  | some (.table .implied inner) => some (items.replace key (.table .header inner))
  | some _ => none

/-- Starts another table in the list behind a key. -/
def openListed (key : String) (items : Items) : Option Items :=
  match items.lookup key with
  | none => some (items ++ [(key, .tables [[]])])
  | some (.tables tables) => some (items.replace key (.tables (tables ++ [[]])))
  | some _ => none

end Items

/-- Splits the last part off a key. -/
def splitLast : List String → Option (List String × String)
  | [] => none
  | parts => parts.getLast?.map fun last => (parts.dropLast, last)

/-- A line of a document. -/
inductive Statement where
  | pair (key : List String) (v : Json)
  | table (key : List String)
  | listed (key : List String)

/-- A document as far as it was read: its items, and the table that the last header opened. -/
structure Document where
  items : Items
  current : List String

namespace Document

/-- A document without lines. -/
def empty : Document :=
  ⟨[], []⟩

/-- Adds a line to a document. -/
def add (d : Document) : Statement → Option Document
  | .pair key v => do
    let (parts, last) ← splitLast key
    return { d with items := ← d.items.descend (Items.insert last v parts) d.current }
  | .table key => do
    let (parts, last) ← splitLast key
    return ⟨← d.items.descend (Items.openTable last) parts, key⟩
  | .listed key => do
    let (parts, last) ← splitLast key
    return ⟨← d.items.descend (Items.openListed last) parts, key⟩

end Document

mutual

/-- What stands behind a key as a tree. -/
def Node.tree : Node → Json
  | .value v => v
  | .table _ items => .object (membersOf items)
  | .tables tables => .array (treesOf tables)

/-- The items of a table as the members of a tree. -/
def membersOf : List (String × Node) → List (String × Json)
  | [] => []
  | (key, node) :: rest => (key, node.tree) :: membersOf rest

/-- The tables of a list as trees. -/
def treesOf : List (List (String × Node)) → List Json
  | [] => []
  | items :: rest => .object (membersOf items) :: treesOf rest

end

/-- The items of a table as a tree. -/
def Items.tree (items : Items) : Json :=
  .object (membersOf items)

end Montage.Toml
