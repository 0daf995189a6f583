import Arbor.Geometry.Vec3

/-!
# Mesh buffers

A mesh as a renderer takes it: one list each for the positions, normals and
texture coordinates of the vertices, and one list of vertex indices, three to a
triangle.

Indices are 32-bit words.  Two meshes are put together by `Buffers.append`,
which moves the indices of the second behind the vertices of the first.
-/

namespace Arbor

/-- A place on a texture. -/
structure TexCoord where
  /-- How far across. -/
  u : Float32
  /-- How far along. -/
  v : Float32
  deriving DecidableEq, Repr, Inhabited

/-- A corner of a surface. -/
structure Vertex where
  /-- Where it is. -/
  position : Vec3
  /-- The direction the surface faces there. -/
  normal : Vec3
  /-- Its place on the texture. -/
  uv : TexCoord
  deriving DecidableEq, Repr, Inhabited

/-- Three vertices by their numbers, counter-clockwise as seen from outside. -/
structure Triangle where
  /-- The first corner. -/
  a : Nat
  /-- The second corner. -/
  b : Nat
  /-- The third corner. -/
  c : Nat
  deriving DecidableEq, Repr, Inhabited

/-- The corners of a triangle in order. -/
def Triangle.corners (t : Triangle) : List Nat := [t.a, t.b, t.c]

/-- A triangle with every corner's number moved up. -/
def Triangle.shift (n : Nat) (t : Triangle) : Triangle := ⟨n + t.a, n + t.b, n + t.c⟩

/-- The lists of a mesh. -/
structure Buffers where
  /-- The positions of the vertices. -/
  positions : Array Vec3
  /-- The normals of the vertices. -/
  normals : Array Vec3
  /-- The texture coordinates of the vertices. -/
  uvs : Array TexCoord
  /-- The corners of the triangles. -/
  indices : Array UInt32
  deriving DecidableEq, Repr, Inhabited

namespace Buffers

/-- The mesh with nothing in it. -/
def empty : Buffers := ⟨#[], #[], #[], #[]⟩

/-- The number of vertices. -/
def vertexCount (b : Buffers) : Nat := b.positions.size

/-- The number of whole triangles. -/
def triangleCount (b : Buffers) : Nat := b.indices.size / 3

/-- Whether there is no vertex. -/
def isEmpty (b : Buffers) : Bool := b.positions.isEmpty

/-- The mesh of some vertices and of triangles between them. -/
def ofSurface (vertices : List Vertex) (triangles : List Triangle) : Buffers where
  positions := (vertices.map Vertex.position).toArray
  normals := (vertices.map Vertex.normal).toArray
  uvs := (vertices.map Vertex.uv).toArray
  indices := (triangles.flatMap Triangle.corners |>.map UInt32.ofNat).toArray

/-- Two meshes in one, the vertices of the first in front. -/
protected def append : Buffers → Buffers → Buffers
  | ⟨ps, ns, ts, is⟩, ⟨qs, ms, us, js⟩ =>
    let base := UInt32.ofNat ps.size
    ⟨ps ++ qs, ns ++ ms, ts ++ us, is ++ js.map (base + ·)⟩

instance : Append Buffers := ⟨Buffers.append⟩

@[simp] theorem positions_append (a b : Buffers) :
    (a ++ b).positions = a.positions ++ b.positions := rfl

@[simp] theorem normals_append (a b : Buffers) : (a ++ b).normals = a.normals ++ b.normals := rfl

@[simp] theorem uvs_append (a b : Buffers) : (a ++ b).uvs = a.uvs ++ b.uvs := rfl

@[simp] theorem indices_append (a b : Buffers) :
    (a ++ b).indices = a.indices ++ b.indices.map (UInt32.ofNat a.positions.size + ·) := rfl

/-- Two meshes are equal when their lists are. -/
theorem eq_of_lists : ∀ {a b : Buffers}, a.positions = b.positions → a.normals = b.normals →
    a.uvs = b.uvs → a.indices = b.indices → a = b
  | ⟨_, _, _, _⟩, ⟨_, _, _, _⟩, rfl, rfl, rfl, rfl => rfl

@[simp] theorem append_empty (a : Buffers) : a ++ empty = a := by
  apply eq_of_lists <;> simp [empty]

@[simp] theorem empty_append (a : Buffers) : empty ++ a = a := by
  apply eq_of_lists <;> simp [empty]

/-- Indices are moved once by the vertices of both meshes in front. -/
theorem append_assoc (a b c : Buffers) : a ++ b ++ c = a ++ (b ++ c) := by
  apply eq_of_lists <;> simp [Function.comp_def, UInt32.add_assoc]

/-- Meshes in one, in order. -/
def join (bs : List Buffers) : Buffers := bs.foldl (· ++ ·) empty

@[simp] theorem join_nil : join [] = empty := rfl

/-- Joining onto a mesh is joining and then appending. -/
theorem foldl_append_eq (a : Buffers) (bs : List Buffers) :
    bs.foldl (· ++ ·) a = a ++ join bs := by
  induction bs generalizing a with
  | nil => simp
  | cons b bs ih => rw [join, List.foldl_cons, List.foldl_cons, ih, ih (empty ++ b), empty_append,
      append_assoc]

theorem join_append (bs cs : List Buffers) : join (bs ++ cs) = join bs ++ join cs := by
  rw [join, List.foldl_append, foldl_append_eq, ← join]

/-- An upright rectangle around the origin that faces along the third axis. -/
def quad (width height : Float32) : Buffers :=
  let w := width / 2
  let h := height / 2
  let corner (x y u v : Float32) : Vertex := ⟨⟨x, y, 0⟩, .unitZ, ⟨u, v⟩⟩
  ofSurface [corner (-w) (-h) 0 0, corner w (-h) 1 0, corner w h 1 1, corner (-w) h 0 1]
    [⟨0, 1, 2⟩, ⟨0, 2, 3⟩]

end Buffers

end Arbor
