/-!
# Canvas and frames

The canvas is the frame of the finished film. A clip is fitted to it by comparing aspect ratios,
crosswise multiplied so that equal ratios are recognised exactly.
-/

namespace Montage

/-- A frame in pixels. -/
structure PixelSize where
  width : UInt32
  height : UInt32
  deriving DecidableEq, Repr, Inhabited

/-- The frame everything is composed on. -/
structure Canvas where
  width : UInt32
  height : UInt32
  deriving DecidableEq, Repr

/-- How a clip is resized to the canvas. -/
inductive Fit where
  /-- The ratios agree: the clip takes the canvas size. -/
  | exact
  /-- The clip is wider: its width is fitted. -/
  | width
  /-- The clip is narrower: its height is fitted. -/
  | height
  deriving DecidableEq, Repr

namespace Canvas

/-- Full high definition. -/
def standard : Canvas :=
  ⟨1920, 1080⟩

instance : Inhabited Canvas :=
  ⟨standard⟩

/-- The canvas as a frame. -/
def size (canvas : Canvas) : PixelSize :=
  ⟨canvas.width, canvas.height⟩

/-- The product of a width and a height. -/
def product (width height : UInt32) : UInt64 :=
  width.toUInt64 * height.toUInt64

/-- How a frame is fitted to the canvas. -/
def fit (canvas : Canvas) (frame : PixelSize) : Fit :=
  let clip := product frame.width canvas.height
  let whole := product canvas.width frame.height
  if clip = whole then .exact else if whole < clip then .width else .height

end Canvas

end Montage
