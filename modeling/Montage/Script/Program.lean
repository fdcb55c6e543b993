import Montage.Resolution
import Montage.Script.Clip

/-!
# Whole scripts

A script makes the clips of all elements, first videos, then texts, then sounds; it puts them on
the timeline, composes them from the lowest layer to the highest, and exports the film.
-/

namespace Montage

namespace Script

/-! ## Entries -/

/-- When an entry at an index starts; the first entry starts by itself. -/
def startExpression? {T : Type} [TimeScale T] (timeline : List Entry) (i : Nat) :
    Placement → Option (StartExpression T)
  | .fixed instant => some (.instant (TimeScale.seconds instant))
  | .relative target anchor offset =>
    some (.relative (entryVariable target) anchor
      (offset.map fun o => (o.sign, TimeScale.seconds o.magnitude)))
  | .implicit =>
    if i = 0 then none
    else (timeline[i - 1]?).map fun before => .relative (entryVariable before.name) .stop none

/-- The assignment of the entry at an index. -/
def entryStatement {T : Type} [TimeScale T] (timeline : List Entry) (defaultText : T) (i : Nat)
    (entry : Entry) (element : Element) : EntryStatement T where
  clip := entryVariable entry.name
  element := element.name
  start := startExpression? timeline i entry.placement
  duration :=
    if element.isTextual then some ((entry.duration.map TimeScale.seconds).getD defaultText)
    else none

end Script

open Script

namespace Resolved

/-- The assignments of all entries, in the order of the timeline. -/
def entryStatements {T : Type} [TimeScale T] (r : Resolved) (defaultText : T) :
    Except Error (List (EntryStatement T)) :=
  r.project.timeline.zipIdx.mapM fun e => do
    let element ← r.requireElement e.1
    return entryStatement r.project.timeline defaultText e.2 e.1 element

/-! ## Composition -/

/-- The entries with their elements, from the lowest layer to the highest. -/
def layered (r : Resolved) : Except Error (List (Entry × Element)) :=
  r.byLayer.mapM fun entry => do
    let element ← r.requireElement entry
    return (entry, element)

end Resolved

namespace Script

/-- The clips that are seen. -/
def visualClips (entries : List (Entry × Element)) : List String :=
  entries.filterMap fun e => if e.2.isVisual then some (entryVariable e.1.name) else none

/-- The tracks that are heard: sounds, and the sounds of videos. -/
def audibleTracks (entries : List (Entry × Element)) : List Track :=
  entries.filterMap fun e =>
    match e.2.category with
    | .video => some ⟨entryVariable e.1.name, true⟩
    | .audio => some ⟨entryVariable e.1.name, false⟩
    | .textual => none

/-- Whether a sound was put on the timeline. -/
def hasSound (entries : List (Entry × Element)) : Bool :=
  entries.any fun e => e.2.category = .audio

/-- Composes the clips and exports the film. Sound is composed only if the timeline has some. -/
def compositionStatements {E : Type} (name : String) (canvas : Canvas)
    (entries : List (Entry × Element)) : List (Statement E) :=
  [.comment "Concatenate all clips", .composeVideo (visualClips entries) canvas, .blank] ++
    (if hasSound entries then
      [.comment "Concatenate all audios", .composeAudio (audibleTracks entries), .blank,
        .comment "Assign audio's concatenation to the final video", .attachAudio, .blank]
      else []) ++
    [.comment "Export the final video", .exportFilm name]

/-- The longer of two lengths of time; one that is no number does not count. -/
def longer (a b : Float) : Float :=
  if a.isNaN then b else if a < b then b else a

end Script

namespace Resolved

/-- How long the letters of a text are animated: as long as its longest entry. -/
def animationDuration (r : Resolved) (settings : ScriptSettings) (element : String) : Float :=
  let lengths := (r.project.timeline.filter fun e => e.element = element).map fun e =>
    (e.duration.map Timestamp.toFloat).getD settings.defaultTextDuration
  match lengths with
  | [] => settings.defaultTextDuration
  | first :: rest => rest.foldl longer first

variable {E : Type}

/-- The clips of all elements: videos, then texts, then sounds. -/
def clipStatements (r : Resolved) (settings : ScriptSettings) (effects : EffectRegistry E) :
    List (Statement E) :=
  let elements := r.project.elements
  (elements.filter fun e => e.category = .video).flatMap
      (videoStatements r.project settings.canvas) ++
    (elements.filter Element.isTextual).flatMap
      (fun e => textStatements settings effects (r.animationDuration settings e.name) e) ++
    (elements.filter fun e => e.category = .audio).flatMap audioStatements

/-- All statements of the script. -/
def statements (r : Resolved) (settings : ScriptSettings) (effects : EffectRegistry E) :
    Except Error (List (Statement E)) := do
  let entries ← r.entryStatements settings.defaultTextDuration
  let layered ← r.layered
  return [.importLibrary, .blank] ++ r.clipStatements settings effects ++
    entries.map .entry ++ [.blank] ++
    compositionStatements r.project.outputName settings.canvas layered

/-- The script of a resolved project. -/
def script [TextEffect E] (r : Resolved) (settings : ScriptSettings) (effects : EffectRegistry E) :
    Except Error String := do
  let statements ← r.statements settings effects
  return render statements

end Resolved

end Montage
