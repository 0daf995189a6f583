import Arbor.Geometry.Mat4
import Arbor.Mesh.Buffers
import Arbor.Mesh.Style
import Arbor.Skeleton

/-!
# Leaves

A leaf grows at every tip of a skeleton.  All leaves share one rectangle and
differ only in their placement.
-/

namespace Arbor

/-- The placement of a leaf. -/
structure Leaf where
  /-- Where its centre is. -/
  position : Vec3
  /-- How it is turned. -/
  orientation : Quat
  deriving DecidableEq, Repr, Inhabited

/-- The placement as a matrix. -/
def Leaf.matrix (l : Leaf) : Mat4 := .ofPlacement l.orientation l.position

/-- The leaf at the tip of a segment, rolled around the branch by an angle.  It
begins where the segment ends. -/
def MeshStyle.leaf (style : MeshStyle) (s : Segment) (roll : Float32) : Leaf where
  position := s.tip + s.direction * (style.leafHeight / 2)
  orientation := (Quat.around s.direction roll * Quat.arcTo s.direction).normalize

/-- All leaves of a tree. -/
structure Foliage where
  /-- The rectangle they share. -/
  quad : Buffers
  /-- Their placements. -/
  leaves : Array Leaf
  deriving DecidableEq, Repr, Inhabited

namespace Foliage

/-- No leaves. -/
def empty : Foliage := ⟨.empty, #[]⟩

/-- The number of leaves. -/
def size (f : Foliage) : Nat := f.leaves.size

/-- Whether there is no leaf. -/
def isEmpty (f : Foliage) : Bool := f.leaves.isEmpty

end Foliage

/-- The leaves at some tips, one roll for each.  There is a rectangle only if
there are leaves. -/
def MeshStyle.foliage (style : MeshStyle) (tips : List Segment) (rolls : List Float32) : Foliage :=
  let leaves := List.zipWith style.leaf tips rolls
  { quad := if leaves.isEmpty then .empty else .quad style.leafWidth style.leafHeight
    leaves := leaves.toArray }

end Arbor
