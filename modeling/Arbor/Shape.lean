import Arbor.Fault
import Arbor.Geometry.Angle

/-!
# Shapes

The numbers that turn a command string into a tree of a certain size: the turn
angle, the step, the radii at both ends of the taper, and how many branches may
be open at once.
-/

namespace Arbor

/-- The measures of a tree. -/
structure Shape where
  /-- The angle of a turn. -/
  angle : Float32
  /-- The length of a step. -/
  stepLength : Float32
  /-- The radius at the root. -/
  baseRadius : Float32
  /-- The radius at the tip of the longest chain. -/
  tipRadius : Float32
  /-- How many branches may be open at once. -/
  stackLimit : Nat
  deriving DecidableEq, Repr

namespace Shape

/-- A slender tree with turns of about 28 degrees. -/
def slender : Shape where
  angle := halfTurn / 6.5
  stepLength := 0.07
  baseRadius := 0.15
  tipRadius := 0.002
  stackLimit := 1024

instance : Inhabited Shape := ⟨slender⟩

/-- The same shape with the turn angle given in degrees. -/
def withDegrees (s : Shape) (degrees : Float32) : Shape := { s with angle := ofDegrees degrees }

/-- Refuses measures that describe no tree.  A tree that widens towards its tips
is odd and allowed. -/
def check (s : Shape) : Except Fault Unit := do
  Quantity.checkFinite .angle s.angle
  Quantity.checkPositive .stepLength s.stepLength
  Quantity.checkNotNegative .baseRadius s.baseRadius
  Quantity.checkNotNegative .tipRadius s.tipRadius

end Shape

end Arbor
