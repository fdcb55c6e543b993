import Montage.Layer
import Montage.Options.Merge
import Montage.Schedule

/-!
# Resolution

A project is resolved when every name it uses exists, every entry has a start and a layer, and
every element carries the options of its groups. A resolved project can be turned into a script
and into a schedule without failing.
-/

namespace Montage

/-- A project with merged options, and the layer of each entry. -/
structure Resolved where
  project : Project
  layers : List Int
  deriving DecidableEq, Repr

namespace Project

/-- Refuses a piece of an element that does not exist. -/
def checkSource (p : Project) (e : Element) : Except Error Unit :=
  match e.source? with
  | none => .ok ()
  | some source =>
    if (p.element? source).isSome then .ok ()
    else .error (.missingReference .extractSource source)

/-- Refuses an entry of an element, or relative to an entry, that does not exist. -/
def checkEntry (p : Project) (entry : Entry) : Except Error Unit :=
  if (p.element? entry.element).isNone then
    .error (.missingReference .element entry.element)
  else
    match entry.relativeTarget? with
    | none => .ok ()
    | some target =>
      if (p.entry? target).isSome then .ok ()
      else .error (.missingReference .placement target)

/-- Refuses names that name nothing. -/
def checkReferences (p : Project) : Except Error Unit := do
  p.elements.forM p.checkSource
  p.timeline.forM p.checkEntry

/-- An element with the options of its groups merged in. -/
def mergeInto (p : Project) : Element → Element
  | .video v =>
    .video
      { v with options := mergeOptions v.options ((p.videoGroupsOf v.name).flatMap (·.options)) }
  | .videoExtract e =>
    .videoExtract
      { e with options := mergeOptions e.options ((p.videoGroupsOf e.name).flatMap (·.options)) }
  | .audio a =>
    .audio
      { a with options := mergeOptions a.options ((p.audioGroupsOf a.name).flatMap (·.options)) }
  | .audioExtract e =>
    .audioExtract
      { e with options := mergeOptions e.options ((p.audioGroupsOf e.name).flatMap (·.options)) }
  | .text t =>
    .text { t with options := mergeOptions t.options ((p.textGroupsOf t.name).flatMap (·.options)) }
  | .subtitle t =>
    .subtitle
      { t with options := mergeOptions t.options ((p.textGroupsOf t.name).flatMap (·.options)) }

/-- All elements with the options of their groups. -/
def mergedElements (p : Project) : List Element :=
  p.elements.map p.mergeInto

/-- Resolves a project, or reports the first thing that is missing or circular. -/
def resolve (p : Project) : Except Error Resolved := do
  p.checkReferences
  p.checkAcyclic
  let layers ← p.layers
  return ⟨{ p with elements := p.mergedElements }, layers⟩

end Project

namespace Resolved

/-- The layer of the entry at an index; zero beyond the timeline. -/
def layer (r : Resolved) (i : Nat) : Int :=
  (r.layers[i]?).getD 0

/-- The element an entry shows. -/
def elementOf (r : Resolved) (entry : Entry) : Option Element :=
  r.project.element? entry.element

/-- The element an entry shows, or its absence as a failure. -/
def requireElement (r : Resolved) (entry : Entry) : Except Error Element :=
  match r.elementOf entry with
  | some element => .ok element
  | none => .error (.missingElement entry.name)

/-- The entries from the lowest layer to the highest. -/
def byLayer (r : Resolved) : List Entry :=
  (compositionOrder r.layers).filterMap fun i => r.project.timeline[i]?

end Resolved

end Montage
