import Montage.Time.Offset

/-!
# Seconds

Instants of the timeline are computed in seconds. The computation uses only addition,
subtraction, negation and the seconds of a timestamp, so it is written for any arithmetic that
has them; scripts and records use doubles.
-/

namespace Montage

/-- An arithmetic in which instants are counted. -/
class TimeScale (T : Type) extends Zero T, Add T, Sub T, Neg T where
  /-- The seconds of a timestamp. -/
  seconds : Timestamp → T

/-- The seconds of a timestamp as a double: minutes, seconds and the fraction are added in
this order. -/
def Timestamp.toFloat (t : Timestamp) : Float :=
  Float.ofNat t.minutes.val * 60.0 + Float.ofNat t.seconds.val + Float.ofNat t.millis.val / 1000.0

instance : TimeScale Float where
  zero := 0.0
  add := Float.add
  sub := Float.sub
  neg := Float.neg
  seconds := Timestamp.toFloat

/-- The signed seconds of an offset. -/
def Offset.seconds {T : Type} [TimeScale T] (o : Offset) : T :=
  match o.sign with
  | .plus => TimeScale.seconds o.magnitude
  | .minus => -TimeScale.seconds o.magnitude

end Montage
