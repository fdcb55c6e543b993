import Montage.Options.Video
import Montage.Options.Audio
import Montage.Options.Text
import Montage.Time.Scale

/-!
# Elements

What a film is made of: media files, pieces cut from other elements, free texts and subtitles.
-/

namespace Montage

/-- A video file. -/
structure VideoFile where
  name : String
  path : String
  /-- The frame of the file, when it is known. -/
  size : Option PixelSize
  options : List VideoOption
  deriving DecidableEq, Repr

/-- An audio file. -/
structure AudioFile where
  name : String
  path : String
  options : List AudioOption
  deriving DecidableEq, Repr

/-- A piece of another element, from one instant of it to another. -/
structure Extract (O : Type) where
  name : String
  source : String
  start : Timestamp
  stop : Timestamp
  options : List O
  deriving DecidableEq, Repr

/-- A text that is shown. -/
structure TextBlock where
  name : String
  text : String
  options : List TextOption
  deriving DecidableEq, Repr

/-- Something that can be put on the timeline. -/
inductive Element where
  | video (v : VideoFile)
  | videoExtract (e : Extract VideoOption)
  | audio (a : AudioFile)
  | audioExtract (e : Extract AudioOption)
  | text (t : TextBlock)
  | subtitle (t : TextBlock)
  deriving DecidableEq, Repr

/-- What kind of clip an element becomes. -/
inductive Category where
  | video
  | audio
  | textual
  deriving DecidableEq, Repr

namespace Element

/-- The name of an element. -/
def name : Element → String
  | video v => v.name
  | videoExtract e => e.name
  | audio a => a.name
  | audioExtract e => e.name
  | text t => t.name
  | subtitle t => t.name

/-- What kind of clip an element becomes. -/
def category : Element → Category
  | video _ => .video
  | videoExtract _ => .video
  | audio _ => .audio
  | audioExtract _ => .audio
  | text _ => .textual
  | subtitle _ => .textual

/-- Whether an element can be seen. -/
def isVisual (e : Element) : Bool :=
  e.category = .video || e.category = .textual

/-- Whether an element is a text or a subtitle. -/
def isTextual (e : Element) : Bool :=
  e.category = .textual

/-- Whether an element is a subtitle. -/
def isSubtitle : Element → Bool
  | subtitle _ => true
  | _ => false

/-- The element a piece is cut from. -/
def source? : Element → Option String
  | videoExtract e => some e.source
  | audioExtract e => some e.source
  | _ => none

/-- The file of an element that is not cut from another one. -/
def filePath? : Element → Option String
  | video v => some v.path
  | audio a => some a.path
  | _ => none

/-- The text of a text or subtitle. -/
def textBlock? : Element → Option TextBlock
  | text t => some t
  | subtitle t => some t
  | _ => none

/-- The length of a piece, which the project alone determines. -/
def extractLength? {T : Type} [TimeScale T] : Element → Option T
  | videoExtract e => some (TimeScale.seconds e.stop - TimeScale.seconds e.start)
  | audioExtract e => some (TimeScale.seconds e.stop - TimeScale.seconds e.start)
  | _ => none

end Element

end Montage
