import Montage.Host
import Montage.Path

/-!
# Files in memory

A tree of files without a disk. The files alone are kept; a directory exists as long as some file
is in it. Paths are followed part by part, relative ones from the directory at the top. Outside of
it there are the directories above it, those that every system has below its root, and the
null device. What is written out there is not kept.
-/

namespace Montage

/-- Why a file operation is refused. -/
inductive FileRefusal where
  | noSuchFile
  | notDirectory
  | isDirectory
  | nameTooLong
  deriving DecidableEq, Repr

/-- The wording of a refusal. -/
def FileRefusal.text : FileRefusal → String
  | noSuchFile => "No such file or directory (os error 2)"
  | notDirectory => "Not a directory (os error 20)"
  | isDirectory => "Is a directory (os error 21)"
  | nameTooLong => "File name too long (os error 36)"

/-- Where a path leads to. -/
inductive Place where
  /-- Somewhere below the directory at the top, or that directory. -/
  | below (parts : List (List Char))
  /-- Somewhere below the root, or the root. -/
  | rooted (parts : List (List Char))
  /-- A directory above the one at the top. -/
  | above
  /-- A name in a directory above the one at the top. -/
  | unknown
  deriving DecidableEq, Repr

namespace Place

/-- Where the segments of a path start. -/
def start (path : String) : Place :=
  if Path.isAbsolute path then rooted [] else below []

/-- The place of a name in a directory. -/
def enter (name : List Char) : Place → Place
  | below parts => below (parts ++ [name])
  | rooted parts => rooted (parts ++ [name])
  | above => unknown
  | unknown => unknown

/-- The directory around a place. The root is its own. -/
def up : Place → Place
  | below [] => above
  | below parts => below parts.dropLast
  | rooted parts => rooted parts.dropLast
  | above => above
  | unknown => above

end Place

/-- The directories that every system has below its root. -/
def topDirectories : List String :=
  ["bin", "boot", "dev", "etc", "home", "lib", "media", "mnt", "opt", "proc", "root", "run", "sbin",
    "srv", "sys", "tmp", "usr", "var"]

/-- The device that is empty and takes every text. -/
def nullDevice : List (List Char) :=
  ["dev".toList, "null".toList]

/-- Files with their texts, by the parts of their paths. -/
structure FileTree where
  files : List (List (List Char) × String)
  deriving Repr

namespace FileTree

/-- The text of the file at some parts. -/
def file? (t : FileTree) (parts : List (List Char)) : Option String :=
  t.files.lookup parts

/-- Whether some parts lead to a directory. -/
def isDirectoryAt (t : FileTree) (parts : List (List Char)) : Bool :=
  parts.isEmpty || t.files.any fun f => parts.length < f.1.length && parts.isPrefixOf f.1

/-- The greatest number of bytes in the name of a file. -/
def nameLimit : Nat :=
  255

/-- The greatest number of bytes in a path. -/
def pathLimit : Nat :=
  4095

/-- Refuses the texts that are no paths. -/
def checkPath (path : String) : Except FileRefusal Unit :=
  if pathLimit < path.utf8ByteSize then .error .nameTooLong
  else if path.isEmpty then .error .noSuchFile
  else .ok ()

/-- Whether a segment is the name of a file or directory. -/
def isName (segment : List Char) : Bool :=
  segment ≠ [] && segment ≠ ['.'] && segment ≠ ['.', '.']

/-- Whether a name is longer than names may be. -/
def isTooLong (segment : List Char) : Bool :=
  nameLimit < (String.ofList segment).utf8ByteSize

/-- What there can be at a place. -/
inductive Holding where
  | nothing
  | directory
  | file (text : String)
  deriving DecidableEq, Repr

/-- What there is at a place. -/
def holding (t : FileTree) : Place → Holding
  | .below parts =>
    match t.file? parts with
    | some text => .file text
    | none => if t.isDirectoryAt parts then .directory else .nothing
  | .rooted [] => .directory
  | .rooted [name] => if topDirectories.contains (String.ofList name) then .directory else .nothing
  | .rooted parts => if parts = nullDevice then .file "" else .nothing
  | .above => .directory
  | .unknown => .nothing

/-- Follows segments from a place. Only a directory can be gone through. -/
def walk (t : FileTree) : Place → List (List Char) → Except FileRefusal Place
  | place, [] => .ok place
  | place, segment :: rest =>
    match t.holding place with
    | .directory =>
      if segment = [] ∨ segment = ['.'] then walk t place rest
      else if segment = ['.', '.'] then walk t place.up rest
      else if isTooLong segment then .error .nameTooLong
      else walk t (place.enter segment) rest
    | .file _ => .error .notDirectory
    | .nothing => .error .noSuchFile

/-- Where a path leads to, whether or not something is there. -/
def locate (t : FileTree) (path : String) : Except FileRefusal Place := do
  checkPath path
  t.walk (Place.start path) (Path.segments path.toList)

/-- The text of a file. -/
def read (t : FileTree) (path : String) : Except FileRefusal String := do
  match t.holding (← t.locate path) with
  | .file text => .ok text
  | .directory => .error .isDirectory
  | .nothing => .error .noSuchFile

/-- Whether a path leads to a directory. -/
def isDirectory (t : FileTree) (path : String) : Bool :=
  match t.locate path with
  | .ok place => t.holding place = .directory
  | .error _ => false

/-- Puts a text into the file at some parts. -/
def put (t : FileTree) (parts : List (List Char)) (text : String) : FileTree :=
  if (t.file? parts).isSome then
    ⟨t.files.map fun f => if f.1 = parts then (parts, text) else f⟩
  else ⟨t.files ++ [(parts, text)]⟩

/-- Writes a file, which may be new but whose directory must exist. A path that ends in a slash can
only be one of a directory. -/
def write (t : FileTree) (path text : String) : Except FileRefusal FileTree := do
  checkPath path
  let segments := Path.segments path.toList
  let named := (segments.reverse.dropWhile (· = [])).reverse
  let name := named.getLast?.getD []
  let directory ← t.walk (Place.start path) (named.dropLast ++ [[]])
  let place := directory.enter name
  if !isName name || named.length < segments.length then .error .isDirectory
  else if isTooLong name then .error .nameTooLong
  else if t.holding place = .directory then .error .isDirectory
  else
    match place with
    | .below parts => .ok (t.put parts text)
    | _ => .ok t

/-- The parts of a path through directories that are made on the way. -/
def plainParts (path : String) : List (List Char) :=
  (Path.segments path.toList).foldl (fun parts segment =>
    if isName segment then parts ++ [segment]
    else if segment = ['.', '.'] then parts.dropLast
    else parts) []

/-- A tree of some files given by path. Of two files at one place the later one stays. -/
def ofFiles (files : List (String × String)) : FileTree :=
  files.foldl (fun t f => t.put (plainParts f.1) f.2) ⟨[]⟩

/-- The files of a tree with their paths. -/
def toFiles (t : FileTree) : List (String × String) :=
  t.files.map fun f => (String.ofList (Path.joinSegments f.1), f.2)

end FileTree

/-- A host whose files are in memory, with a given way of probing them. -/
def Host.inMemory (probe : FileTree → String → String → ProbeRun) : Host (StateM FileTree) where
  readText path := do return ((← get).read path).mapError FileRefusal.text
  writeText path text := do
    match (← get).write path text with
    | .ok tree =>
      set tree
      return .ok ()
    | .error refusal => return .error refusal.text
  isDirectory path := do return (← get).isDirectory path
  probe program path := do return probe (← get) program path

end Montage
