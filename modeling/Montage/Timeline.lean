import Montage.Time.Offset

/-!
# Timeline entries

An entry puts an element on the timeline, at an instant, relative to another entry or right
after the entry before it, and may say above or under which entry it is stacked.
-/

namespace Montage

/-- Which end of an entry is meant. -/
inductive Anchor where
  | start
  | stop
  deriving DecidableEq, Repr

/-- How the start of an entry is determined. -/
inductive Placement where
  | fixed (instant : Timestamp)
  | relative (target : String) (anchor : Anchor) (offset : Option Offset)
  /-- At the beginning for the first entry, else at the end of the entry before. -/
  | implicit
  deriving DecidableEq, Repr, Inhabited

/-- Whether the start follows from the order of entries alone. -/
def Placement.isImplicit : Placement → Bool
  | implicit => true
  | _ => false

/-- A stacking relation to another entry. -/
inductive LayerRelation where
  | above (target : String)
  | under (target : String)
  deriving DecidableEq, Repr

/-- The entry a relation refers to. -/
def LayerRelation.target : LayerRelation → String
  | above target => target
  | under target => target

/-- How far a relation is from the layer it refers to. -/
def LayerRelation.step : LayerRelation → Int
  | above _ => 1
  | under _ => -1

/-- An element put on the timeline. -/
structure Entry where
  name : String
  /-- The name of the element that is shown. -/
  element : String
  placement : Placement
  /-- How long a text is shown. -/
  duration : Option Timestamp
  layer : Option LayerRelation
  deriving DecidableEq, Repr

/-- The entry whose start or end determines the start of this one. -/
def Entry.relativeTarget? (e : Entry) : Option String :=
  match e.placement with
  | .relative target _ _ => some target
  | _ => none

end Montage
