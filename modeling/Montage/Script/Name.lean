/-!
# Names in scripts

Elements and entries become variables of the script, so their names must be identifiers that the
language does not keep for itself and that the script does not use for its own purposes.
-/

namespace Montage.Script

/-- Whether a character may start an identifier. -/
def isNameStart (c : Char) : Bool :=
  c.isAlpha || c = '_'

/-- Whether a character may continue an identifier. -/
def isNamePart (c : Char) : Bool :=
  c.isAlphanum || c = '_'

/-- Whether a text has the form of an identifier. Only letters and digits of ASCII count. -/
def isIdentifier (s : String) : Bool :=
  match s.toList with
  | [] => false
  | c :: rest => isNameStart c && rest.all isNamePart

/-- The words of the script's language. -/
def keywords : List String :=
  ["False", "None", "True", "and", "as", "assert", "async", "await", "break", "class",
    "continue", "def", "del", "elif", "else", "except", "finally", "for", "from", "global",
    "if", "import", "in", "is", "lambda", "nonlocal", "not", "or", "pass", "raise", "return",
    "try", "while", "with", "yield"]

/-- The names the script binds for its own purposes. -/
def ownNames : List String :=
  ["moviepy", "np", "label", "find_objects", "final_video", "final_audio",
    "multiply_effect", "resize_effect", "lum_contrast_effect", "painting_effect",
    "rotate_effect", "fade_in", "fade_out", "new_volume", "stereo_volume",
    "normalize_effect",
    "rotMatrix", "find_letters", "move_letters", "grouping", "falling"]

/-- Whether a name can be a variable of the script. -/
def isVariable (s : String) : Bool :=
  isIdentifier s && !keywords.contains s && !ownNames.contains s

/-- What the variables of entries start with; no element has such a name. -/
def entryMark : String :=
  "timeline_element_"

/-- The name of an entry without the number sign in front. -/
def withoutNumberSign (name : String) : String :=
  match name.toList with
  | '#' :: rest => String.ofList rest
  | _ => name

/-- The variable of an entry. -/
def entryVariable (name : String) : String :=
  entryMark ++ withoutNumberSign name

/-- The variable that holds the letters of an animated text. -/
def lettersVariable (element : String) : String :=
  element ++ "_letters"

end Montage.Script
