import Montage.Canvas

/-!
# Positions

Where a clip is put on the canvas. Each axis has a pixel coordinate or an alignment, and an
alignment becomes a coordinate once the size of the clip is known.
-/

namespace Montage

/-- Alignment along the width. -/
inductive HorizontalAlign where
  | left
  | center
  | right
  deriving DecidableEq, Repr

/-- Alignment along the height. -/
inductive VerticalAlign where
  | top
  | center
  | bottom
  deriving DecidableEq, Repr

/-- One axis of a position. -/
inductive AxisPosition (A : Type) where
  | pixels (n : Int32)
  | aligned (a : A)
  deriving DecidableEq, Repr

/-- A position; an axis that is not set keeps its default. -/
structure Position where
  x : Option (AxisPosition HorizontalAlign)
  y : Option (AxisPosition VerticalAlign)
  deriving DecidableEq, Repr, Inhabited

/-- A coordinate as scripts give it. -/
inductive Coordinate where
  | pixels (n : Int)
  | center
  deriving DecidableEq, Repr

/-- A coordinate on each axis. -/
structure Point where
  x : Coordinate
  y : Coordinate
  deriving DecidableEq, Repr

/-- The middle of the canvas. -/
def Point.middle : Point :=
  ⟨.center, .center⟩

/-- The upper left corner of the canvas. -/
def Point.corner : Point :=
  ⟨.pixels 0, .pixels 0⟩

/-- The coordinate of a horizontal setting for a clip of a width. -/
def AxisPosition.across (canvas : Canvas) (width : Int) :
    AxisPosition HorizontalAlign → Coordinate
  | pixels n => .pixels n.toInt
  | aligned .left => .pixels 0
  | aligned .center => .center
  | aligned .right => .pixels (canvas.width.toNat - width)

/-- The coordinate of a vertical setting for a clip of a height. -/
def AxisPosition.down (canvas : Canvas) (height : Int) :
    AxisPosition VerticalAlign → Coordinate
  | pixels n => .pixels n.toInt
  | aligned .top => .pixels 0
  | aligned .center => .center
  | aligned .bottom => .pixels (canvas.height.toNat - height)

/-- Where a clip of some size is put. A clip of unknown size that is aligned right or to the bottom
starts at that edge of the canvas. -/
def Position.place (position : Position) (canvas : Canvas) (size : Option PixelSize)
    (fallback : Point) : Point :=
  let width : Int := match size with
    | some s => s.width.toNat
    | none => 0
  let height : Int := match size with
    | some s => s.height.toNat
    | none => 0
  ⟨match position.x with
    | some x => x.across canvas width
    | none => fallback.x,
   match position.y with
    | some y => y.down canvas height
    | none => fallback.y⟩

end Montage
