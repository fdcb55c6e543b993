/-!
# JSON trees

A JSON text read as far as it makes sense. Object members keep their order and their
repetitions, whole numbers are kept apart from other numbers, and marks stand for what has no
value: a literal or a key that may be skipped but not used, and the place where the text stops
being JSON. A tree whose reading stopped ends in such a leaf, so whoever walks the tree in order
meets the fault at the place where the text has it.
-/

namespace Montage

/-- A JSON tree. -/
inductive Json where
  | null
  | bool (b : Bool)
  /-- A number written as a whole number that fits in 64 bits. -/
  | int (i : Int)
  /-- Any other number. -/
  | real (x : Float)
  | string (s : String)
  | array (items : List Json)
  | object (members : List (String × Json))
  /-- A well-formed literal without a value: a number beyond every double, or a text with half
  of a surrogate pair. -/
  | loose
  /-- The value of a member whose key has half of a surrogate pair. The key is left empty. -/
  | unnamed (value : Json)
  /-- The text stops being JSON here. -/
  | malformed
  deriving Inhabited, Repr

namespace Json

mutual

/-- Whether every leaf of a tree satisfies a condition, and every value without a name. -/
def every (ok : Json → Bool) : Json → Bool
  | array items => everyItem ok items
  | object members => everyMember ok members
  | unnamed v => ok (unnamed v) && every ok v
  | leaf => ok leaf

/-- Whether every leaf of every tree of a list satisfies a condition. -/
def everyItem (ok : Json → Bool) : List Json → Bool
  | [] => true
  | v :: vs => every ok v && everyItem ok vs

/-- Whether every leaf of every member satisfies a condition. -/
def everyMember (ok : Json → Bool) : List (String × Json) → Bool
  | [] => true
  | (_, v) :: ms => every ok v && everyMember ok ms

end

/-- Whether a leaf is JSON at all. -/
def wellFormedLeaf : Json → Bool
  | malformed => false
  | _ => true

/-- Whether a leaf has a value, and its key too. -/
def valuedLeaf : Json → Bool
  | malformed => false
  | loose => false
  | unnamed _ => false
  | _ => true

/-- Whether a tree can be passed over. -/
def skippable (v : Json) : Bool :=
  v.every wellFormedLeaf

/-- Whether a tree can be passed over as a member of a record. The key of such a member is read. -/
def passable : Json → Bool
  | unnamed _ => false
  | v => v.skippable

/-- Whether a tree can be set aside whole for later use. -/
def holdable (v : Json) : Bool :=
  v.every valuedLeaf

mutual

/-- How many containers are nested in a tree. -/
def depth : Json → Nat
  | array items => 1 + depthItems items
  | object members => 1 + depthMembers members
  | unnamed v => depth v
  | _ => 0

/-- The greatest nesting among the trees of a list. -/
def depthItems : List Json → Nat
  | [] => 0
  | v :: vs => max (depth v) (depthItems vs)

/-- The greatest nesting among the members of an object. -/
def depthMembers : List (String × Json) → Nat
  | [] => 0
  | (_, v) :: ms => max (depth v) (depthMembers ms)

end

/-- Puts a member behind all members with a smaller or equal key. -/
def insertByKey (m : String × Json) : List (String × Json) → List (String × Json)
  | [] => [m]
  | n :: ns => if m.1 < n.1 then m :: n :: ns else n :: insertByKey m ns

mutual

/-- The same tree with the members of every object ordered by key. -/
def sorted : Json → Json
  | array items => array (sortedItems items)
  | object members => object (sortedMembers members)
  | leaf => leaf

/-- Orders the objects inside each tree of a list. -/
def sortedItems : List Json → List Json
  | [] => []
  | v :: vs => sorted v :: sortedItems vs

/-- Orders members by key, and the objects inside them. -/
def sortedMembers : List (String × Json) → List (String × Json)
  | [] => []
  | (k, v) :: ms => insertByKey (k, sorted v) (sortedMembers ms)

end

/-- The first member of a given key. -/
def member? (key : String) : Json → Option Json
  | object members => members.lookup key
  | _ => none

end Json

end Montage
