/-!
# Failures

Every way in which work on a project can fail, with its cause. The wording stands in one
place: a short detail, the same detail behind the name of its area, and a sentence for people.
-/

namespace Montage

/-- Why a document was refused. Only the library's own refusals have a wording. -/
inductive Fault where
  /-- The text is no JSON, or not of the expected shape. -/
  | unreadable
  | timestamp (text : String)
  | offset (text : String)
  | severity (number : Nat)
  deriving DecidableEq, Repr

/-- What a dangling name was supposed to name. -/
inductive ReferenceKind where
  | element
  | placement
  | extractSource
  deriving DecidableEq, Repr

/-- The words for what a name refers to. -/
def ReferenceKind.text : ReferenceKind → String
  | element => "element"
  | placement => "timeline element"
  | extractSource => "extract source"

/-- A failure with its cause. -/
inductive Error where
  | invalidTimestamp (text : String)
  | invalidOffset (text : String)
  | projectNotFound (path : String)
  | missingReference (kind : ReferenceKind) (name : String)
  | cyclicRelation (path : List String)
  /-- A placement schedules an element that does not exist. -/
  | missingElement (placement : String)
  | settingsUnreadable (path : String)
  | invalidSetting (key value : String)
  | settingsNotFound (path : String)
  | probeFailed (path reason : String)
  /-- Changes of a file cannot be observed. -/
  | watchFailed (reason : String)
  /-- The operating system refused a file operation. -/
  | system (reason : String)
  | document (fault : Fault)
  deriving DecidableEq, Repr

/-- Names joined by arrows, as chains are shown. -/
def arrows (names : List String) : String :=
  " -> ".intercalate names

/-- The text of a refused timestamp. -/
def invalidTimestampText (text : String) : String :=
  s!"Invalid timestamp '{text}', expected mm:ss with fields 00-59"

/-- The text of a refused offset. -/
def invalidOffsetText (text : String) : String :=
  s!"Invalid offset '{text}', expected a leading '+' or '-' followed by mm:ss"

/-- The wording of a refusal, where it has one. -/
def Fault.message? : Fault → Option String
  | unreadable => none
  | timestamp text => some (invalidTimestampText text)
  | offset text => some (invalidOffsetText text)
  | severity number => some s!"unknown diagnostic severity {number}"

namespace Error

/-- What went wrong, without the area it belongs to. -/
def detail : Error → String
  | invalidTimestamp text => invalidTimestampText text
  | invalidOffset text => invalidOffsetText text
  | projectNotFound path => s!"Failed to read project document: {path}"
  | missingReference kind name => s!"Missing {kind.text} reference: {name}"
  | cyclicRelation path => s!"Cyclic relation detected: {arrows path}"
  | missingElement placement =>
    s!"Missing element reference for timeline element {placement}"
  | settingsUnreadable path => s!"Failed to parse configuration file: {path}"
  | invalidSetting key value => s!"Invalid configuration value: {key} = {value}"
  | settingsNotFound path => s!"Configuration file not found: {path}"
  | probeFailed path reason => s!"Failed to probe media file {path}: {reason}"
  | watchFailed reason => s!"File watcher failed: {reason}"
  | system reason => reason
  | document fault => fault.message?.getD "unreadable document"

/-- The area a failure belongs to. -/
def area : Error → String
  | invalidTimestamp _ => "Program model error"
  | invalidOffset _ => "Program model error"
  | projectNotFound _ => "Program model error"
  | missingReference _ _ => "Resolution error"
  | cyclicRelation _ => "Resolution error"
  | missingElement _ => "Code generation error"
  | settingsUnreadable _ => "Configuration error"
  | invalidSetting _ _ => "Configuration error"
  | settingsNotFound _ => "Configuration error"
  | probeFailed _ _ => "Media error"
  | watchFailed _ => "Media error"
  | system _ => "IO error"
  | document _ => "JSON error"

/-- The full text of a failure. -/
def message (e : Error) : String :=
  s!"{e.area}: {e.detail}"

/-- The sentence shown to people. -/
def userMessage : Error → String
  | projectNotFound path => s!"Could not read project '{path}'. Please check the file exists."
  | cyclicRelation path =>
    s!"Timeline elements refer to each other in a loop ({arrows path}). Break the chain to continue."
  | settingsNotFound path => s!"Configuration file '{path}' not found."
  | probeFailed path _ => s!"Could not read the duration of '{path}'. Is ffprobe installed?"
  | e => e.message

/-- Whether trying again may help. -/
def recoverable : Error → Bool
  | system _ => true
  | probeFailed _ _ => true
  | _ => false

end Error

end Montage
