import Arbor.Geometry.Quat

/-!
# Placements as matrices

A renderer takes the placement of an object as the sixteen entries of a
matrix, column by column.
-/

namespace Arbor

/-- One column of a matrix. -/
structure Column where
  /-- The first row. -/
  x : Float32
  /-- The second row. -/
  y : Float32
  /-- The third row. -/
  z : Float32
  /-- The fourth row. -/
  w : Float32
  deriving DecidableEq, Repr, Inhabited

/-- The entries of a column, from the first row on. -/
def Column.entries (c : Column) : List Float32 := [c.x, c.y, c.z, c.w]

/-- A matrix of four rows and four columns. -/
structure Mat4 where
  /-- The image of the first axis. -/
  xAxis : Column
  /-- The image of the second axis. -/
  yAxis : Column
  /-- The image of the third axis. -/
  zAxis : Column
  /-- The image of the origin. -/
  wAxis : Column
  deriving DecidableEq, Repr, Inhabited

namespace Mat4

/-- The entries of a matrix, column by column. -/
def entries (m : Mat4) : List Float32 :=
  [m.xAxis, m.yAxis, m.zAxis, m.wAxis].flatMap Column.entries

/-- The matrix that turns by `q` and then moves the origin to `place`. -/
def ofPlacement (q : Quat) (place : Vec3) : Mat4 :=
  let x2 := q.x + q.x
  let y2 := q.y + q.y
  let z2 := q.z + q.z
  let xx := q.x * x2
  let xy := q.x * y2
  let xz := q.x * z2
  let yy := q.y * y2
  let yz := q.y * z2
  let zz := q.z * z2
  let wx := q.w * x2
  let wy := q.w * y2
  let wz := q.w * z2
  { xAxis := ⟨1 - (yy + zz), xy + wz, xz - wy, 0⟩
    yAxis := ⟨xy - wz, 1 - (xx + zz), yz + wx, 0⟩
    zAxis := ⟨xz + wy, yz - wx, 1 - (xx + yy), 0⟩
    wAxis := ⟨place.x, place.y, place.z, 1⟩ }

end Mat4

end Arbor
