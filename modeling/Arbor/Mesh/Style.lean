import Arbor.Fault

/-!
# Mesh styles

How finely a branch is drawn, which segments are too short to draw, and how
large a leaf is.
-/

namespace Arbor

/-- The measures of a mesh. -/
structure MeshStyle where
  /-- The number of sides around a branch. -/
  sides : UInt32
  /-- Segments shorter than this are not drawn. -/
  minLength : Float32
  /-- The width of a leaf. -/
  leafWidth : Float32
  /-- The height of a leaf, along its branch. -/
  leafHeight : Float32
  deriving DecidableEq, Repr

namespace MeshStyle

/-- Eight sides to a branch and small leaves. -/
def octagonal : MeshStyle where
  sides := 8
  minLength := 0.001
  leafWidth := 0.05
  leafHeight := 0.08

instance : Inhabited MeshStyle := ⟨octagonal⟩

/-- Refuses measures that describe no mesh. -/
def check (s : MeshStyle) : Except Fault Unit := do
  if s.sides < 3 then .error (.tooFewSides s.sides)
  Quantity.checkNotNegative .minLength s.minLength
  Quantity.checkNotNegative .leafWidth s.leafWidth
  Quantity.checkNotNegative .leafHeight s.leafHeight

/-- The vertices of one segment: two side rings with a doubled seam, and for each
of the two caps one centre for every side and a rim with a doubled seam. -/
def verticesPerSegment (s : MeshStyle) : Nat := 6 * s.sides.toNat + 4

/-- The indices of one segment: two triangles for every side, and one for every
side of each cap. -/
def indicesPerSegment (s : MeshStyle) : Nat := 12 * s.sides.toNat

end MeshStyle

end Arbor
