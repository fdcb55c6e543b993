/-!
# Writers

A writer holds the text of a script while it grows, the current depth of nesting, and the keys of
what must not be written twice. Each level of nesting is four blanks.
-/

namespace Montage.Script

/-- A script being written. -/
structure Writer where
  output : String
  level : Nat
  written : List String
  deriving DecidableEq, Repr

/-- Something that is done with a writer. -/
inductive Action where
  | add (text : String)
  | line (text : String)
  | indent
  | dedent
  | mark (key : String)
  deriving DecidableEq, Repr

namespace Writer

/-- An empty script. -/
def empty : Writer :=
  ⟨"", 0, []⟩

/-- Appends a text as it is. -/
def add (w : Writer) (text : String) : Writer :=
  { w with output := w.output ++ text }

/-- The blanks of a level. -/
def indentation (level : Nat) : String :=
  String.ofList (List.replicate (4 * level) ' ')

/-- A text as a whole line at a level; an empty line has no blanks. -/
def lineText (level : Nat) (text : String) : String :=
  if text.isEmpty then "\n" else indentation level ++ text ++ "\n"

/-- Appends a line at the current level. -/
def line (w : Writer) (text : String) : Writer :=
  w.add (lineText w.level text)

/-- Appends an empty line. -/
def blank (w : Writer) : Writer :=
  w.add "\n"

/-- Appends a comment. -/
def comment (w : Writer) (text : String) : Writer :=
  w.line s!"# {text}"

/-- Goes one level deeper. -/
def indent (w : Writer) : Writer :=
  { w with level := w.level + 1 }

/-- Goes one level back, but not beyond the first. -/
def dedent (w : Writer) : Writer :=
  { w with level := w.level - 1 }

/-- Remembers a key. -/
def mark (w : Writer) (key : String) : Writer :=
  { w with written := key :: w.written }

/-- Does something unless its key was met before, and says whether it was done. -/
def once (w : Writer) (key : String) (body : Writer → Writer) : Writer × Bool :=
  if key ∈ w.written then (w, false) else (body (w.mark key), true)

/-- Does one thing. -/
def act (w : Writer) : Action → Writer
  | .add text => w.add text
  | .line text => w.line text
  | .indent => w.indent
  | .dedent => w.dedent
  | .mark key => w.mark key

/-- Does one thing after another. -/
def actAll (w : Writer) (actions : List Action) : Writer :=
  actions.foldl act w

end Writer

end Montage.Script
