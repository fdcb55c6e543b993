import Montage.Error
import Montage.Path

/-!
# Measured lengths

Measuring a media file is slow, so lengths are kept by path. A length is read, measured if it is
not there, and then written; a measurement that fails leaves no trace. Readings and writings
are single steps, so that several lookups may overlap.
-/

namespace Montage

/-- The lengths that were measured so far. -/
structure DurationCache (T : Type) where
  entries : List (Path.Key × T)
  deriving Repr

namespace DurationCache

variable {T : Type}

/-- A cache without lengths. -/
def empty : DurationCache T :=
  ⟨[]⟩

instance : Inhabited (DurationCache T) :=
  ⟨empty⟩

/-- The length that is kept for a path. -/
def find? (c : DurationCache T) (path : String) : Option T :=
  c.entries.lookup (Path.key path)

/-- Keeps a length for a path, in the place of an older one. -/
def store (c : DurationCache T) (path : String) (duration : T) : DurationCache T :=
  ⟨(Path.key path, duration) :: c.entries.filter fun e => e.1 ≠ Path.key path⟩

/-- How many paths have a length. -/
def size (c : DurationCache T) : Nat :=
  c.entries.length

/-- Whether no path has a length. -/
def isEmpty (c : DurationCache T) : Bool :=
  c.entries.isEmpty

/-- The length of a file: the one that is kept, else the one that is measured now. -/
def lookup {m : Type → Type} [Monad m] (measure : String → m (Except Error T)) (path : String) :
    StateT (DurationCache T) m (Except Error T) := do
  match (← get).find? path with
  | some duration => return .ok duration
  | none =>
    match ← measure path with
    | .ok duration =>
      modify fun c => c.store path duration
      return .ok duration
    | .error e => return .error e

end DurationCache

end Montage
