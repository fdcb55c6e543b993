import Montage.Diagnostic
import Montage.Layer
import Montage.Schedule

/-!
# The rule on the timeline

The first entry starts the film, entries refer back and not forth, only texts have a duration of
their own, and no chain of starts or layers runs in a circle.
-/

namespace Montage.Rule

/-- Examines the first entry. -/
def firstEntryFindings (p : Project) : List Diagnostic :=
  match p.timeline with
  | [] => []
  | first :: _ =>
    if first.placement.isImplicit then []
    else [.error "first-placement"
      "First element in timeline must not have time parameters, it will be the starting point of the video (00:00)"
      first.name]

/-- Whether an entry refers to a later one. -/
def refersForth (p : Project) (index : Nat) (entry : Entry) : Bool :=
  match entry.relativeTarget? with
  | none => false
  | some target =>
    match p.entryIndex? target with
    | some j => index < j
    | none => false

/-- Whether an entry gives a duration to something that is no text. -/
def hasIdleDuration (p : Project) (entry : Entry) : Bool :=
  entry.duration.isSome &&
    match p.element? entry.element with
    | some element => !element.isTextual
    | none => false

/-- Examines an entry at an index. -/
def entryTimeFindings (p : Project) (index : Nat) (entry : Entry) : List Diagnostic :=
  (if refersForth p index entry then
    [.error "future-relative-placement"
      "You cannot place relatively this element to a future element" entry.name]
    else []) ++
  (if hasIdleDuration p entry then
    [.error "textual-duration" "Only textual elements can have duration" entry.name]
    else [])

/-- Reports a circle. Missing names are left to the rule on references. -/
def circleFindings {α : Type} (rule : String) : Except Error α → List Diagnostic
  | .error (.cyclicRelation path) =>
    [.error rule s!"Infinite recursion detected. Path: {arrows path}" (path.head?.getD "")]
  | _ => []

/-- Examines the timeline of a project. -/
def timelineFindings (p : Project) : List Diagnostic :=
  firstEntryFindings p ++
    (p.timeline.zipIdx.flatMap fun e => entryTimeFindings p e.2 e.1) ++
    circleFindings "relative-recursion" p.checkAcyclic ++
    circleFindings "layer-recursion" p.layers

end Montage.Rule
