import Montage.Build.Debounce
import Montage.Command

/-!
# The command line

Runs the commands on the files of the machine. Programs cannot be started from here, so media files
have no measured length. A watched project is looked at once in every window; a text that differs
from the last one is an edit.
-/

namespace Montage.Main

/-- The wording of a failed file operation. -/
def reasonOf : IO.Error → String
  | .noFileOrDirectory _ _ _ => "No such file or directory (os error 2)"
  | .inappropriateType _ _ _ => "Is a directory (os error 21)"
  | .permissionDenied _ _ _ => "Permission denied (os error 13)"
  | e => toString e

/-- The files of the machine. -/
def host : Host IO where
  readText path := do
    try return .ok (← IO.FS.readFile path)
    catch e => return .error (reasonOf e)
  writeText path text := do
    try
      IO.FS.writeFile path text
      return .ok ()
    catch e => return .error (reasonOf e)
  -- only a directory can be opened with a dot behind it
  isDirectory path := do
    try
      let _ ← IO.FS.Handle.mk (path ++ "/.") .read
      return true
    catch _ => return false
  probe _ _ := return .notStarted "Operation not permitted (os error 1)"

/-- Builds a watched project and shows what is published. -/
def rebuild (b : Builder IO LetterEffect) (path : String) (cache : DurationCache Float) :
    IO (DurationCache Float) := do
  let (change, cache) ← (b.rebuild host path).run cache
  match change with
  | .ok change => IO.println (change.encode.text .compact)
  | .error _ => pure ()
  return cache

/-- Watches a project for ever. -/
partial def watch (b : Builder IO LetterEffect) (window : UInt32) (path : String)
    (last : Except String String)
    (loop : Debounce.Loop Unit) (cache : DurationCache Float) : IO Unit := do
  IO.sleep window
  let run? := Debounce.Loop.run? window.toNat
  let text ← host.readText path
  if text.toOption ≠ last.toOption then
    watch b window path text ((run? loop [.edit (), .take]).getD loop) cache
  else
    match run? loop [.elapse window.toNat, .expire, .build] with
    | some building =>
      let cache ← rebuild b path cache
      watch b window path text ((run? building [.finish, .settle]).getD building) cache
    | none => watch b window path text loop cache

/-- Goes on watching if the task was to watch. The start counts as an edit. -/
def afterwards (i : Command.Invocation) : IO Unit := do
  match i.task with
  | .watch path =>
    let (settings, _) ← ((Command.settingsFor host i).run).run {}
    match settings with
    | .ok s =>
      let text ← host.readText path
      let window := s.build.debounce.toUInt32
      watch (Command.builderFor host s path) window path text
        ((Debounce.Loop.start.run? window.toNat [.edit (), .take]).getD .start) .empty
    | .error _ => pure ()
  | _ => pure ()

end Montage.Main

open Montage in
/-- Does what the command line asks for. -/
def main (arguments : List String) : IO UInt32 := do
  let outcome ← Command.execute Main.host arguments
  IO.print outcome.screen.output
  IO.eprint outcome.screen.errors
  if outcome.exitCode = 0 then
    match Command.parse arguments with
    | .ok i => Main.afterwards i
    | .error _ => pure ()
  return outcome.exitCode.toUInt32
