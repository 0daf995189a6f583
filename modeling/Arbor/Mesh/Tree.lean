import Arbor.Event
import Arbor.Mesh.Leaf
import Arbor.Mesh.Tube
import Arbor.Random

/-!
# Tree meshes

A skeleton becomes a mesh: its segments become one merged mesh of tubes, its
tips become leaves.  The random source, whichever it is, gives one roll to each leaf,
in the order of the tips, and nothing else.
-/

namespace Arbor

/-- A tree ready to be drawn. -/
structure TreeMesh where
  /-- The branches. -/
  branches : Buffers
  /-- The leaves. -/
  foliage : Foliage
  deriving DecidableEq, Repr, Inhabited

namespace TreeMesh

/-- The tree with nothing in it. -/
def empty : TreeMesh := ⟨.empty, .empty⟩

/-- Whether there is nothing to draw. -/
def isEmpty (m : TreeMesh) : Bool := m.branches.isEmpty && m.foliage.isEmpty

end TreeMesh

namespace MeshStyle

variable {σ : Type} [RandomSource σ]

/-- The mesh of a skeleton and the random source after it. -/
def mesh (style : MeshStyle) (s : Skeleton) (rng : σ) : TreeMesh × σ :=
  let (rolls, rng) := RandomSource.rolls s.leafCount rng
  (⟨style.branches s.segments.toList, style.foliage s.tips rolls⟩, rng)

/-- The mesh of a skeleton, with a report of its size.  An empty skeleton is not
worth a report. -/
def assemble (style : MeshStyle) (s : Skeleton) (rng : σ) : Logged (TreeMesh × σ) :=
  let (mesh, rng) := style.mesh s rng
  let skipped := s.segments.toList.countP style.skips
  let report := Event.assembled mesh.branches.vertexCount mesh.branches.triangleCount
    mesh.foliage.size skipped
  ⟨(mesh, rng), if s.isEmpty then [] else [report]⟩

end MeshStyle

end Arbor
