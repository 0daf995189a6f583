import Arbor.Geometry.Quat

/-!
# The turtle

A turtle has a position, an orientation, and a memory of the segment whose tip
it stands on.  It travels along its own up axis.  Turns are around its own axes
and leave the position and the memory alone.
-/

namespace Arbor

/-- The state of a turtle. -/
structure Turtle where
  /-- Where it is. -/
  position : Vec3
  /-- How its own axes lie in the world. -/
  orientation : Quat
  /-- The segment whose tip it stands on.  The next segment grows out of it. -/
  standsOn : Option Nat
  deriving DecidableEq, Repr

namespace Turtle

/-- A turtle at the root of a tree, looking up. -/
def start : Turtle := ⟨.origin, .identity, none⟩

instance : Inhabited Turtle := ⟨start⟩

/-! ## The turtle's axes -/

/-- The direction of travel. -/
def up (t : Turtle) : Vec3 := t.orientation.rotate .unitY

/-- The direction to the left. -/
def left (t : Turtle) : Vec3 := t.orientation.rotate .unitX

/-- The direction the turtle faces. -/
def heading (t : Turtle) : Vec3 := t.orientation.rotate .unitZ

/-! ## Steps and turns -/

/-- A step along the direction of travel. -/
def advance (t : Turtle) (distance : Float32) : Turtle :=
  { t with position := t.position + t.up * distance }

/-- A turn around one of the turtle's own axes. -/
def turnAround (t : Turtle) (axis : Vec3) (angle : Float32) : Turtle :=
  { t with orientation := (t.orientation * Quat.around axis angle).normalize }

/-- A turn around the direction of travel. -/
def yaw (t : Turtle) (angle : Float32) : Turtle := t.turnAround .unitY angle

/-- A turn around the left axis. -/
def pitch (t : Turtle) (angle : Float32) : Turtle := t.turnAround .unitX angle

/-- A turn around the heading axis. -/
def roll (t : Turtle) (angle : Float32) : Turtle := t.turnAround .unitZ angle

@[simp] theorem position_turnAround (t : Turtle) (axis : Vec3) (angle : Float32) :
    (t.turnAround axis angle).position = t.position := rfl

@[simp] theorem standsOn_turnAround (t : Turtle) (axis : Vec3) (angle : Float32) :
    (t.turnAround axis angle).standsOn = t.standsOn := rfl

@[simp] theorem orientation_advance (t : Turtle) (distance : Float32) :
    (t.advance distance).orientation = t.orientation := rfl

@[simp] theorem standsOn_advance (t : Turtle) (distance : Float32) :
    (t.advance distance).standsOn = t.standsOn := rfl

end Turtle

end Arbor
