/-!
# Vectors

Points and directions in space, over single-precision numbers.  Every
operation rounds after each step, in the order it is written here, so two
expressions that agree over the reals may differ in the last bit.
-/

namespace Arbor

/-- A point or a direction. -/
structure Vec3 where
  /-- The first coordinate. -/
  x : Float32
  /-- The second coordinate, along which a tree starts to grow. -/
  y : Float32
  /-- The third coordinate. -/
  z : Float32
  deriving DecidableEq, Repr, Inhabited

namespace Vec3

/-! ## Constants -/

/-- The world's centre, where a tree is rooted. -/
def origin : Vec3 := ⟨0, 0, 0⟩

/-- The unit vector of the first axis. -/
def unitX : Vec3 := ⟨1, 0, 0⟩

/-- The unit vector of the second axis, straight up. -/
def unitY : Vec3 := ⟨0, 1, 0⟩

/-- The unit vector of the third axis. -/
def unitZ : Vec3 := ⟨0, 0, 1⟩

/-! ## Arithmetic -/

/-- The sum by coordinates. -/
protected def add (a b : Vec3) : Vec3 := ⟨a.x + b.x, a.y + b.y, a.z + b.z⟩

/-- The difference by coordinates. -/
protected def sub (a b : Vec3) : Vec3 := ⟨a.x - b.x, a.y - b.y, a.z - b.z⟩

/-- Every coordinate times one number. -/
def scale (a : Vec3) (s : Float32) : Vec3 := ⟨a.x * s, a.y * s, a.z * s⟩

/-- Every coordinate divided by one number. -/
def shrink (a : Vec3) (s : Float32) : Vec3 := ⟨a.x / s, a.y / s, a.z / s⟩

instance : Add Vec3 := ⟨Vec3.add⟩
instance : Sub Vec3 := ⟨Vec3.sub⟩
instance : HMul Vec3 Float32 Vec3 := ⟨scale⟩
instance : HDiv Vec3 Float32 Vec3 := ⟨shrink⟩

/-- The scalar product, summed from the first coordinate on. -/
def dot (a b : Vec3) : Float32 := a.x * b.x + a.y * b.y + a.z * b.z

/-- The vector product. -/
def cross (a b : Vec3) : Vec3 :=
  ⟨a.y * b.z - b.y * a.z, a.z * b.x - b.z * a.x, a.x * b.y - b.x * a.y⟩

/-! ## Length -/

/-- The length of a vector. -/
def length (a : Vec3) : Float32 := (a.dot a).sqrt

/-- The distance of two points. -/
def distance (a b : Vec3) : Float32 := (a - b).length

/-- The vector times the reciprocal of its length. -/
def normalize (a : Vec3) : Vec3 := a * (1 / a.length)

/-- The vector scaled to length one, or `fallback` where the reciprocal of its
length is not a positive finite number. -/
def normalizeOr (a fallback : Vec3) : Vec3 :=
  let r := 1 / a.length
  if r.isFinite ∧ 0 < r then a * r else fallback

/-! ## Corners of a box -/

/-- The smaller of two numbers, the second one where they do not compare. -/
def lower (a b : Float32) : Float32 := if a < b then a else b

/-- The larger of two numbers, the second one where they do not compare. -/
def upper (a b : Float32) : Float32 := if b < a then a else b

/-- The low corner of two points, by coordinates. -/
def min (a b : Vec3) : Vec3 := ⟨lower a.x b.x, lower a.y b.y, lower a.z b.z⟩

/-- The high corner of two points, by coordinates. -/
def max (a b : Vec3) : Vec3 := ⟨upper a.x b.x, upper a.y b.y, upper a.z b.z⟩

end Vec3

end Arbor
