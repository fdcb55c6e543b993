import Montage.Media.Probe

/-!
# Hosts

What the library asks of its surroundings: files are read and written, directories looked for, and
media files probed. A host says how, in a monad of its own, so the same commands run on a disk
and in memory.
-/

namespace Montage

/-- The surroundings of a command. Refusals are given by their wording. -/
structure Host (m : Type → Type) where
  readText : String → m (Except String String)
  writeText : String → String → m (Except String Unit)
  isDirectory : String → m Bool
  /-- Runs a probing program on a file. -/
  probe : (program path : String) → m ProbeRun

/-- Measures a file by means of a program. -/
def Host.measure {m : Type → Type} [Monad m] (h : Host m) (program path : String) :
    m (Except Error Float) := do
  let run ← h.probe program path
  return run.duration program path

end Montage
