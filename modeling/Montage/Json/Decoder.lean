import Montage.Json.Reader
import Montage.Error

/-!
# Decoding JSON trees

Values of the library's types are read from trees in document order: of several faults the one
that stands first in the text is reported. A record is an object, whose unknown members are
skipped, or the list of its fields in their declared order. A choice between shapes sets its
value aside whole before looking at it; such a value must be free of faults throughout, and
its nesting is limited.
-/

namespace Montage.Json

/-- What the surroundings of a value allow. -/
structure Context where
  /-- How many containers are open around the value. -/
  depth : Nat
  /-- What may stand behind a name that carries nothing. -/
  emptyBody : Json → Bool
  /-- Whether lists of fields may be too long. -/
  surplus : Bool
  /-- Whether a kind in a list may be given by its number. -/
  numbered : Bool

/-- Whether a tree is null. -/
def isNull : Json → Bool
  | null => true
  | _ => false

/-- Whether a tree is an object without members. -/
def isEmptyObject : Json → Bool
  | object [] => true
  | _ => false

/-- Whether a tree is an array without items. -/
def isEmptyArray : Json → Bool
  | array [] => true
  | _ => false

namespace Context

/-- A value read straight from a text. -/
def text : Context :=
  ⟨0, isNull, false, false⟩

/-- A value that was set aside. -/
def held : Context :=
  ⟨0, fun v => isNull v || isEmptyObject v, false, true⟩

/-- A value that several shapes are tried on. -/
def tried : Context :=
  ⟨0, isNull, false, true⟩

/-- A value of a settings file. -/
def settings : Context :=
  ⟨0, fun v => isEmptyObject v || isEmptyArray v, true, false⟩

/-- The surroundings of the parts of a container. -/
def enter (ctx : Context) : Context :=
  { ctx with depth := ctx.depth + 1 }

end Context

/-- Reads a value of a type from a tree. -/
abbrev Decoder (α : Type) := Context → Json → Except Fault α

/-- The greatest number of containers around and in a value that is set aside. -/
def nestingLimit : Nat :=
  127

/-- Whether a value can be set aside in its surroundings. -/
def canHold (ctx : Context) (v : Json) : Bool :=
  v.holdable && ctx.depth + v.depth ≤ nestingLimit

/-! ## Leaves -/

/-- Reads a string. -/
def asString : Decoder String
  | _, string s => .ok s
  | _, _ => .error .unreadable

/-- Reads a truth value. -/
def asBool : Decoder Bool
  | _, bool b => .ok b
  | _, _ => .error .unreadable

/-- Reads a whole number within bounds. -/
def asIntIn (low high : Int) : Decoder Int
  | _, int i => if low ≤ i ∧ i ≤ high then .ok i else .error .unreadable
  | _, _ => .error .unreadable

/-- Reads an unsigned number of 32 bits. -/
def asUInt32 : Decoder UInt32 :=
  fun ctx v => (asIntIn 0 (UInt32.size - 1) ctx v).map fun i => UInt32.ofNat i.toNat

/-- Reads an unsigned number of 64 bits. -/
def asUInt64 : Decoder UInt64 :=
  fun ctx v => (asIntIn 0 (UInt64.size - 1) ctx v).map fun i => UInt64.ofNat i.toNat

/-- Reads a signed number of 32 bits. -/
def asInt32 : Decoder Int32 :=
  fun ctx v => (asIntIn Int32.minValue.toInt Int32.maxValue.toInt ctx v).map Int32.ofInt

/-- Reads a signed number of 64 bits. -/
def asInt64 : Decoder Int64 :=
  fun ctx v => (asIntIn Int64.minValue.toInt Int64.maxValue.toInt ctx v).map Int64.ofInt

/-- Reads any number as a double. -/
def asFloat : Decoder Float
  | _, int i => .ok (Float.ofInt i)
  | _, real x => .ok x
  | _, _ => .error .unreadable

/-! ## Containers -/

/-- Reads a value that null stands in for when it is missing. -/
def asOptional {α : Type} (d : Decoder α) : Decoder (Option α)
  | _, null => .ok none
  | ctx, v => (d ctx v).map some

/-- Reads the items of an array in order. -/
def asList {α : Type} (d : Decoder α) : Decoder (List α)
  | ctx, array items => items.mapM (d ctx.enter)
  | _, _ => .error .unreadable

/-- Reads one of some names, alone or as the only key of an object with an empty body. -/
def asName {α : Type} (names : List (String × α)) : Decoder α
  | _, string s =>
    match names.lookup s with
    | some a => .ok a
    | none => .error .unreadable
  | ctx, object [(key, body)] =>
    match names.lookup key with
    | some a => if ctx.emptyBody body then .ok a else .error .unreadable
    | none => .error .unreadable
  | _, _ => .error .unreadable

/-- Reads one of some names at the front of a list: the name alone or, where numbers are allowed,
its place among the names. -/
def asLeadingName {α : Type} (names : List (String × α)) : Decoder α
  | _, string s =>
    match names.lookup s with
    | some a => .ok a
    | none => .error .unreadable
  | ctx, int i =>
    match names[i.toNat]? with
    | some (_, a) => if ctx.numbered ∧ 0 ≤ i then .ok a else .error .unreadable
    | none => .error .unreadable
  | _, _ => .error .unreadable

/-- Reads an object with one member, whose key says what its value is. -/
def asKeyed {α : Type} (shapes : List (String × Decoder α)) : Decoder α
  | ctx, object [(key, body)] =>
    match shapes.lookup key with
    | some d => d ctx.enter body
    | none => .error .unreadable
  | _, _ => .error .unreadable

/-- Sets a value aside and reads it in the first shape that fits. -/
def asFirstOf {α : Type} (shapes : List (Decoder α)) : Decoder α := fun ctx v =>
  if canHold ctx v then
    match shapes.findSome? fun d => (d Context.tried v).toOption with
    | some a => .ok a
    | none => .error .unreadable
  else .error .unreadable

/-! ## Records -/

/-- The reading of a part of a record; a fault carries the position where it was met. -/
abbrev Reading (α : Type) := Except (Nat × Fault) α

namespace Reading

/-- Joins two readings of one record; the fault that stands first wins. -/
def join {α β : Type} (f : Reading (α → β)) (a : Reading α) : Reading β :=
  match f, a with
  | .ok f, .ok a => .ok (f a)
  | .error e, .ok _ => .error e
  | .ok _, .error e => .error e
  | .error e, .error e' => .error (if e'.1 < e.1 then e' else e)

/-- Forgets where a fault was met. -/
def settle {α : Type} (r : Reading α) : Except Fault α :=
  r.mapError Prod.snd

end Reading

/-- Where the members of a key stand, and their values. -/
def occurrences (key : String) (members : List (String × Json)) : List (Nat × Json) :=
  members.zipIdx.filterMap fun m => if m.1.1 = key then some (m.2, m.1.2) else none

/-- Passes over the members that are not among some keys. -/
def skipOthers (keys : List String) (members : List (String × Json)) : Reading Unit :=
  match members.findIdx? fun m => !keys.contains m.1 && !m.2.passable with
  | some i => .error (i, .unreadable)
  | none => .ok ()

/-- How the fields of a record are found, in an object and in a list. -/
structure Record (α : Type) where
  keys : List String
  ofMembers : Context → List (String × Json) → Reading α
  /-- Reads the fields from a list, of which the first ones are left to other fields. -/
  ofItems : Context → Nat → List Json → Reading α

namespace Record

/-- A record without fields. -/
def pure {α : Type} (a : α) : Record α :=
  ⟨[], fun _ _ => .ok a, fun _ _ _ => .ok a⟩

/-- The fields of one record followed by those of another. -/
def seq {α β : Type} (f : Record (α → β)) (a : Record α) : Record β where
  keys := f.keys ++ a.keys
  ofMembers ctx ms := (f.ofMembers ctx ms).join (a.ofMembers ctx ms)
  ofItems ctx i vs := (f.ofItems ctx i vs).join (a.ofItems ctx (i + f.keys.length) vs)

/-- One field, with what it is when an object or a list ends without it. -/
def fieldWith {α : Type} (key : String) (d : Decoder α) (noMember noItem : Option α) :
    Record α where
  keys := [key]
  ofMembers ctx ms :=
    match occurrences key ms with
    | [] =>
      match noMember with
      | some a => .ok a
      | none => .error (ms.length, .unreadable)
    | (i, v) :: more =>
      match d ctx v, more with
      | .error e, _ => .error (i, e)
      | .ok a, [] => .ok a
      | .ok _, (j, _) :: _ => .error (j, .unreadable)
  ofItems ctx i vs :=
    match vs[i]? with
    | some v => (d ctx v).mapError fun e => (i, e)
    | none =>
      match noItem with
      | some a => .ok a
      | none => .error (i, .unreadable)

/-- A field that must be there. -/
def field {α : Type} (key : String) (d : Decoder α) : Record α :=
  fieldWith key d none none

/-- A field with a default. -/
def fieldOr {α : Type} (key : String) (a : α) (d : Decoder α) : Record α :=
  fieldWith key d (some a) (some a)

/-- A field that may be missing or null. -/
def optional {α : Type} (key : String) (d : Decoder α) : Record (Option α) :=
  fieldOr key none (asOptional d)

/-- A field that may be missing or null, but not missing from a list. -/
def listedOptional {α : Type} (key : String) (d : Decoder α) : Record (Option α) :=
  fieldWith key (asOptional d) (some none) none

/-- Reads a record from the members of an object. -/
def members {α : Type} (r : Record α) (ctx : Context) (ms : List (String × Json)) :
    Except Fault α :=
  let others : Reading (α → α) := (skipOthers r.keys ms).map fun _ => id
  (others.join (r.ofMembers ctx ms)).settle

/-- Reads a record from the list of its fields. -/
def items {α : Type} (r : Record α) (ctx : Context) (vs : List Json) : Except Fault α :=
  let tooLong : Reading (α → α) :=
    if !ctx.surplus && r.keys.length < vs.length then .error (r.keys.length, .unreadable)
    else .ok id
  (tooLong.join (r.ofItems ctx 0 vs)).settle

/-- Reads a record from an object only. -/
def objectOnly {α : Type} (r : Record α) : Decoder α
  | ctx, object ms => r.members ctx.enter ms
  | _, _ => .error .unreadable

/-- Reads a record from an object or from the list of its fields. -/
def decode {α : Type} (r : Record α) : Decoder α
  | ctx, object ms => r.members ctx.enter ms
  | ctx, array vs => r.items ctx.enter vs
  | _, _ => .error .unreadable

end Record

instance : Functor Record where
  map f r := (Record.pure f).seq r

instance : Seq Record where
  seq f a := f.seq (a ())

/-! ## Tagged records -/

/-- Reads a record whose shape is named by a tag: a member of the object, or the first item of
the list. All other parts are set aside first. -/
def asTagged {α : Type} (tag : String) (shapes : List (String × Record α)) : Decoder α
  | ctx, object ms =>
    let others := ms.filter fun m => m.1 ≠ tag
    match occurrences tag ms with
    | [(_, string name)] =>
      match shapes.lookup name with
      | some r =>
        if others.all fun m => canHold ctx.enter m.2 then r.members Context.held others
        else .error .unreadable
      | none => .error .unreadable
    | _ => .error .unreadable
  | ctx, array (string name :: rest) =>
    match shapes.lookup name with
    | some r =>
      if rest.all (canHold ctx.enter) then r.items Context.held rest else .error .unreadable
    | none => .error .unreadable
  | _, _ => .error .unreadable

/-- What stands beside a kind: nothing, or a value. -/
inductive Payload (α : Type) where
  | nothing (a : α)
  | value (d : Decoder α)

namespace Payload

/-- Reads a payload that is there. -/
def read {α : Type} : Payload α → Decoder α
  | nothing a, _, null => .ok a
  | nothing _, _, _ => .error .unreadable
  | value d, ctx, v => d ctx v

/-- The payload that is not there. -/
def absent {α : Type} : Payload α → Except Fault α
  | nothing a => .ok a
  | value _ => .error .unreadable

end Payload

/-- Reads a pair of a kind and a value: an object with the members `kind` and `value` in either
order, or a list of the two. A value in front of its kind is set aside. -/
def asKind {α : Type} (kinds : List (String × Payload α)) : Decoder α
  | ctx, object ms => do
    let ctx := ctx.enter
    let _ ← (skipOthers ["kind", "value"] ms).settle
    match occurrences "kind" ms, occurrences "value" ms with
    | [(_, kind)], [] => (← asName kinds ctx kind).absent
    | [(i, kind)], [(j, v)] =>
      let payload ← asName kinds ctx kind
      if i < j then payload.read ctx v
      else if canHold ctx v then payload.read Context.held v
      else .error .unreadable
    | _, _ => .error .unreadable
  | ctx, array [kind, v] => do
    let payload ← asLeadingName kinds ctx.enter kind
    payload.read ctx.enter v
  | _, _ => .error .unreadable

/-! ## Texts -/

/-- Reads a value from a text. What follows the value is looked at last. -/
def decodeText {α : Type} (d : Decoder α) (s : String) : Except Fault α := do
  let document := read s
  let a ← d Context.text document.root
  if document.complete then .ok a else .error .unreadable

end Montage.Json
