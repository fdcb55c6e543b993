import Montage.Build
import Montage.Host

/-!
# Watching

A watched document is built once at the start and again after every batch of edits. A build whose
document cannot be read publishes nothing; the next edit tries again.
-/

namespace Montage

variable {m : Type → Type} [Monad m]

/-- The directory in which edits of a file are noticed, even if the file is replaced. -/
def watchedDirectory (path : String) : String :=
  let directory := Path.parent path
  if directory.isEmpty then "." else directory

/-- Refuses to watch a file in a directory that does not exist. -/
def Host.checkWatch (h : Host m) (path : String) : m (Except Error Unit) := do
  let directory := watchedDirectory path
  if ← h.isDirectory directory then return .ok ()
  else return .error (.watchFailed s!"no directory {directory}")

/-- Builds the document of a file. -/
def Builder.rebuild {E : Type} [TextEffect E] (b : Builder m E) (h : Host m) (path : String) :
    StateT (DurationCache Float) m (Except Error Change) := do
  match ← h.readText path with
  | .error reason => return .error (.system reason)
  | .ok text =>
    match Project.parse text with
    | .error e => return .error e
    | .ok p => b.build s!"file://{path}" p

end Montage
