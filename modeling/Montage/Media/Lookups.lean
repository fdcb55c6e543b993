import Montage.Media.Cache

/-!
# Overlapping lookups

Several lookups share one cache of measured lengths. A lookup reads the cache; if it finds nothing
it has the file measured, and then it keeps the length that was measured. Only the reading and the
keeping are single steps, and between them other lookups may do their own. The cache may also be
read without measuring, and it may be emptied at any time.

Lookups and their cache form a machine. How measuring ends is not up to the machine: the same file
may be measured more than once, with a different answer each time.
-/

namespace Montage

variable {T : Type}

/-- Where a lookup of a path stands. -/
inductive Lookup (T : Type) where
  /-- Nothing was found, and the file is being measured. -/
  | measuring (path : String)
  /-- The file was measured, and its length is to be kept. -/
  | keeping (path : String) (duration : T)
  | answered (path : String) (answer : Except Error T)
  deriving Repr

namespace Lookup

/-- A lookup that has read the cache. -/
def read (c : DurationCache T) (path : String) : Lookup T :=
  match c.find? path with
  | some duration => answered path (.ok duration)
  | none => measuring path

/-- A lookup whose file was measured. A failure is its answer. -/
def hear (path : String) : Except Error T → Lookup T
  | .ok duration => keeping path duration
  | .error e => answered path (.error e)

/-- What can happen to lookups and their cache. -/
inductive Event (T : Type) where
  /-- A lookup of a path starts and reads the cache. -/
  | read (path : String)
  /-- The file of a path was measured for a lookup. -/
  | measured (lookup : Nat) (path : String) (answer : Except Error T)
  /-- A lookup keeps the length that was measured for a path. -/
  | keep (lookup : Nat) (path : String)
  /-- The cache is read for a path, and nothing is measured. -/
  | peek (path : String)
  /-- The cache is emptied. -/
  | clear
  deriving Repr

/-- The cache, and the lookups that were started, in the order of their starts. -/
structure Shared (T : Type) where
  cache : DurationCache T
  lookups : List (Lookup T)
  deriving Repr

namespace Shared

/-- An empty cache before any lookup. -/
def start : Shared T :=
  ⟨.empty, []⟩

/-- What an event leads to, if it is possible. -/
def step? (s : Shared T) : Event T → Option (Shared T)
  | .read path => some { s with lookups := s.lookups ++ [Lookup.read s.cache path] }
  | .measured i path answer =>
    match s.lookups[i]? with
    | some (.measuring asked) =>
      if asked = path then some { s with lookups := s.lookups.set i (hear path answer) } else none
    | _ => none
  | .keep i path =>
    match s.lookups[i]? with
    | some (.keeping asked duration) =>
      if asked = path then
        some ⟨s.cache.store path duration, s.lookups.set i (.answered path (.ok duration))⟩
      else none
    | _ => none
  | .peek _ => some s
  | .clear => some { s with cache := .empty }

/-- What a sequence of events leads to, if each of them is possible in its turn. -/
def run? (s : Shared T) (events : List (Event T)) : Option (Shared T) :=
  events.foldlM step? s

end Shared

end Lookup

end Montage
