/-!
# Paths

Paths are texts whose parts are separated by slashes. Two texts name the same path when their
parts agree: repeated slashes, a slash at the end, and single dots do not count, except a dot
in front of everything. Double dots are parts like all others, since what they mean depends
on the files.
-/

namespace Montage.Path

/-- Splits a text at its slashes. -/
def segments : List Char → List (List Char)
  | [] => [[]]
  | c :: rest =>
    if c = '/' then [] :: segments rest
    else
      match segments rest with
      | [] => [[c]]
      | s :: more => (c :: s) :: more

/-- Joins texts by slashes. -/
def joinSegments : List (List Char) → List Char
  | [] => []
  | [s] => s
  | s :: more => s ++ '/' :: joinSegments more

/-- Whether a path starts at the root. -/
def isAbsolute (path : String) : Bool :=
  path.toList.head? = some '/'

/-- Whether the segment at an index is a part of the path. -/
def isPart (i : Nat) (segment : List Char) : Bool :=
  segment ≠ [] && (segment ≠ ['.'] || i = 0)

/-- What paths are compared by. -/
structure Key where
  absolute : Bool
  parts : List (List Char)
  deriving DecidableEq, Repr

/-- The key of a path. -/
def key (path : String) : Key :=
  ⟨isAbsolute path, ((segments path.toList).zipIdx.filter fun s => isPart s.2 s.1).map Prod.fst⟩

/-- A path seen from a directory. -/
def join (directory path : String) : String :=
  if isAbsolute path then path
  else if directory.isEmpty || directory.toList.getLast? = some '/' then directory ++ path
  else directory ++ "/" ++ path

/-- The directory a path leads to before its last part; empty when there is none. -/
def parent (path : String) : String :=
  let all := segments path.toList
  let parts := (all.zipIdx.filter fun s => isPart s.2 s.1).map Prod.snd
  match parts.dropLast.getLast? with
  | some i => String.ofList (joinSegments (all.take (i + 1)))
  | none => if isAbsolute path && !parts.isEmpty then "/" else ""

end Montage.Path
