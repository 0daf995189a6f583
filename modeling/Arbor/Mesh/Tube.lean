import Arbor.Mesh.Buffers
import Arbor.Mesh.Style
import Arbor.Skeleton
import Arbor.Geometry.Quat

/-!
# Tubes

A segment is drawn as a closed tube: a frustum with `n` flat sides and a cap at
each end.  It is first made upright around the origin, then turned onto the
segment's direction and moved to its middle.

The vertices of a tube come in this order, `6 n + 4` of them.

* The upper side ring and the lower side ring, `n + 1` vertices each.  The last
  vertex of a ring stands where the first one does, at the other edge of the
  texture.
* For the upper cap, then for the lower one: `n` vertices at the centre, one for
  each side, and a rim of `n + 1` vertices.

The triangles only depend on `n`, so they are a definition of their own,
`Tube.triangles`.
-/

namespace Arbor

/-! ## Vertices -/

namespace Frustum

/-- How far around column `i` of `n` is, from zero to one. -/
def turnOf (n i : Nat) : Float32 := Float32.ofNat i / Float32.ofNat n

/-- One ring of the side.  `v` is zero at the upper end and one at the lower. -/
def sideRing (f : Frustum) (n : Nat) (v : Float32) : List Vertex :=
  let slope := (f.bottom - f.top) / f.height
  let radius := f.top + v * (f.bottom - f.top)
  let y := f.height / 2 - v * f.height
  (List.range (n + 1)).map fun i =>
    let u := turnOf n i
    let sin := (u * fullTurn).sin
    let cos := (u * fullTurn).cos
    { position := ⟨radius * sin, y, radius * cos⟩
      normal := Vec3.normalize ⟨sin, slope, cos⟩
      uv := ⟨u, 1 - v⟩ }

/-- The centre of a cap, once for each side.  The side is one at the upper end and
minus one at the lower. -/
def capCentre (f : Frustum) (n : Nat) (side : Float32) : List Vertex :=
  List.replicate n
    { position := Vec3.unitY * (f.height / 2) * side
      normal := Vec3.unitY * side
      uv := ⟨0.5, 0.5⟩ }

/-- The rim of a cap. -/
def capRim (f : Frustum) (n : Nat) (radius side : Float32) : List Vertex :=
  (List.range (n + 1)).map fun i =>
    let angle := turnOf n i * fullTurn
    let sin := angle.sin
    let cos := angle.cos
    { position := ⟨radius * sin, f.height / 2 * side, radius * cos⟩
      normal := Vec3.unitY * side
      uv := ⟨cos * 0.5 + 0.5, sin * 0.5 * side + 0.5⟩ }

/-- The vertices of the upright tube around a frustum. -/
def vertices (f : Frustum) (n : Nat) : List Vertex :=
  f.sideRing n 0 ++ f.sideRing n 1
    ++ (f.capCentre n 1 ++ f.capRim n f.top 1)
    ++ (f.capCentre n (-1) ++ f.capRim n f.bottom (-1))

@[simp] theorem length_sideRing (f : Frustum) (n : Nat) (v : Float32) :
    (f.sideRing n v).length = n + 1 := by
  rw [sideRing, List.length_map, List.length_range]

@[simp] theorem length_capCentre (f : Frustum) (n : Nat) (side : Float32) :
    (f.capCentre n side).length = n := List.length_replicate

@[simp] theorem length_capRim (f : Frustum) (n : Nat) (radius side : Float32) :
    (f.capRim n radius side).length = n + 1 := by
  rw [capRim, List.length_map, List.length_range]

end Frustum

/-! ## Triangles -/

namespace Tube

/-- The first vertex of the lower side ring. -/
def lowerRing (n : Nat) : Nat := n + 1

/-- The first vertex of the upper cap. -/
def upperCap (n : Nat) : Nat := 2 * (n + 1)

/-- The first vertex of the lower cap. -/
def lowerCap (n : Nat) : Nat := upperCap n + n + (n + 1)

/-- The two triangles of one side. -/
def side (n i : Nat) : List Triangle :=
  let a := i
  let b := lowerRing n + i
  [⟨a, b, a + 1⟩, ⟨b, b + 1, a + 1⟩]

/-- The triangle of one side on the upper cap. -/
def upperSlice (n i : Nat) : Triangle :=
  let rim := upperCap n + n + i
  ⟨rim, rim + 1, upperCap n + i⟩

/-- The triangle of one side on the lower cap, seen from the other side. -/
def lowerSlice (n i : Nat) : Triangle :=
  let rim := lowerCap n + n + i
  ⟨rim + 1, rim, lowerCap n + i⟩

/-- The triangles of a tube with `n` sides. -/
def triangles (n : Nat) : List Triangle :=
  (List.range n).flatMap (side n) ++ (List.range n).map (upperSlice n)
    ++ (List.range n).map (lowerSlice n)

end Tube

/-! ## Placement -/

/-- A vertex turned around the origin and then moved. -/
def Vertex.place (turn : Quat) (offset : Vec3) (v : Vertex) : Vertex :=
  { v with position := turn.rotate v.position + offset, normal := turn.rotate v.normal }

namespace Segment

/-- The middle of a segment. -/
def middle (s : Segment) : Vec3 := (s.base + s.tip) / (2 : Float32)

/-- The tube of a segment, with `n` sides. -/
def tube (n : Nat) (s : Segment) : Buffers :=
  let turn := Quat.arcTo s.direction
  .ofSurface ((s.frustum.vertices n).map (Vertex.place turn s.middle)) (Tube.triangles n)

end Segment

namespace MeshStyle

/-- The length up to which a segment counts as a point. -/
def pointLength : Float32 := 1.1920928955078125e-7

/-- Whether a segment is too short to draw. -/
def skips (style : MeshStyle) (s : Segment) : Bool :=
  s.length < style.minLength || s.length ≤ pointLength

/-- The branches of some segments: the tubes of those long enough, in order. -/
def branches (style : MeshStyle) (segments : List Segment) : Buffers :=
  .join ((segments.filter fun s => !style.skips s).map (Segment.tube style.sides.toNat))

end MeshStyle

end Arbor
