import Arbor.Geometry.Angle
import Arbor.Geometry.Vec3

/-!
# Rotations

A rotation is a quaternion `x i + y j + z k + w`.  The order of the additions
in each formula is part of its meaning, since every step rounds.
-/

namespace Arbor

/-- A quaternion.  Only those of length one stand for a rotation. -/
structure Quat where
  /-- The factor of `i`. -/
  x : Float32
  /-- The factor of `j`. -/
  y : Float32
  /-- The factor of `k`. -/
  z : Float32
  /-- The real part. -/
  w : Float32
  deriving DecidableEq, Repr, Inhabited

namespace Quat

/-- The rotation that moves nothing. -/
def identity : Quat := ⟨0, 0, 0, 1⟩

/-- The imaginary part. -/
def imaginary (q : Quat) : Vec3 := ⟨q.x, q.y, q.z⟩

/-- The rotation by `angle` around a unit vector. -/
def around (axis : Vec3) (angle : Float32) : Quat :=
  let half := angle * 0.5
  let v := axis * half.sin
  ⟨v.x, v.y, v.z, half.cos⟩

/-- The quaternion divided by its length. -/
def normalize (q : Quat) : Quat :=
  let l := ((q.x * q.x + q.z * q.z) + (q.y * q.y + q.w * q.w)).sqrt
  ⟨q.x / l, q.y / l, q.z / l, q.w / l⟩

/-- The product: the rotation `b` seen from inside the rotation `a`. -/
protected def mul (a b : Quat) : Quat where
  x := (a.w * b.x + a.x * b.w) + (a.y * b.z - a.z * b.y)
  y := (a.w * b.y - a.x * b.z) + (a.y * b.w + a.z * b.x)
  z := (a.w * b.z + a.x * b.y) + (a.z * b.w - a.y * b.x)
  w := (a.w * b.w - a.x * b.x) + (-(a.y * b.y) - a.z * b.z)

instance : Mul Quat := ⟨Quat.mul⟩

/-- The vector turned by the rotation. -/
def rotate (q : Quat) (v : Vec3) : Vec3 :=
  let b := q.imaginary
  let k := q.w * q.w - b.dot b
  let d := v.dot b * 2
  let c := b.cross v
  (v * k + b * d) + c * (q.w * 2)

/-- How far from a pole a direction has to be for its arc to be computed. -/
def poleMargin : Float32 := 1 - 2 * 1.1920928955078125e-7

/-- The shortest rotation that takes the second axis to the unit vector `goal`.
At the pole nothing turns.  At the opposite pole every half turn is shortest,
and the one around the third axis, read downwards, is taken. -/
def arcTo (goal : Vec3) : Quat :=
  let d := Vec3.unitY.dot goal
  if poleMargin < d then identity
  else if d < -poleMargin then around ⟨-0.0, 0, -1⟩ halfTurn
  else
    let c := Vec3.unitY.cross goal
    normalize ⟨c.x, c.y, c.z, 1 + d⟩

end Quat

end Arbor
