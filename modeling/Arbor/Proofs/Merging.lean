import Arbor.Mesh.Tree
import Arbor.Proofs.Layout
import Arbor.Proofs.Leaves

/-!
# Merging branches

Tubes are drawn into one mesh, one behind the other.  To number its vertices, a tube looks
at how many the mesh has: before its side, and for each cap before the centres and before
the rim.

*In place.*  `Buffers.drawTube` puts vertices and triangles into a mesh one at a time, as
they come.  Whatever the mesh holds by then, it ends up with the tube behind it
(`Buffers.appends_drawTube`): what is read of the mesh is where the tube begins, and all
indices are counted from there.

*Many tubes.*  So each segment adds the same to every mesh (`MeshStyle.appends_draw`), and
the branches of two lists of segments are those of the first and then those of the second.
-/

namespace Arbor

/-! ## One after the other -/

namespace Buffers

/-- The mesh with a vertex more. -/
def addVertex (out : Buffers) (v : Vertex) : Buffers where
  positions := out.positions.push v.position
  normals := out.normals.push v.normal
  uvs := out.uvs.push v.uv
  indices := out.indices

/-- The mesh with some vertices more. -/
def addVertices (out : Buffers) (vertices : List Vertex) : Buffers :=
  vertices.foldl addVertex out

/-- The mesh with some indices more. -/
def addIndices (out : Buffers) (indices : List UInt32) : Buffers :=
  { out with indices := out.indices ++ indices.toArray }

/-- The index of the vertex that comes next. -/
def nextIndex (out : Buffers) : UInt32 := UInt32.ofNat out.vertexCount

theorem addVertices_eq (out : Buffers) (vertices : List Vertex) :
    out.addVertices vertices = out ++ ofSurface vertices [] := by
  induction vertices generalizing out with
  | nil => exact (append_empty out).symm
  | cons v vertices ih =>
    rw [addVertices, List.foldl_cons, ← addVertices, ih]
    apply eq_of_lists <;> simp [addVertex, ofSurface]

theorem addIndices_addIndices (out : Buffers) (is js : List UInt32) :
    (out.addIndices is).addIndices js = out.addIndices (is ++ js) := by
  simp [addIndices]

theorem foldl_addIndices {α : Type} (f : α → List UInt32) (xs : List α) (out : Buffers) :
    xs.foldl (fun out x => out.addIndices (f x)) out = out.addIndices (xs.flatMap f) := by
  induction xs generalizing out with
  | nil => simp [addIndices]
  | cons x xs ih => rw [List.foldl_cons, ih, addIndices_addIndices, List.flatMap_cons]

/-- Triangles between new vertices, counted from the first of these. -/
theorem addIndices_addVertices (out : Buffers) (vertices : List Vertex)
    (triangles : List Triangle) :
    (out.addVertices vertices).addIndices
        ((triangles.flatMap Triangle.corners).map fun v => out.nextIndex + UInt32.ofNat v) =
      out ++ ofSurface vertices triangles := by
  rw [addVertices_eq]
  apply eq_of_lists <;> simp [addIndices, ofSurface, nextIndex, vertexCount, Function.comp_def]

/-- One surface behind another. -/
theorem ofSurface_append (vs ws : List Vertex) (ts us : List Triangle) :
    ofSurface vs ts ++ ofSurface ws us =
      ofSurface (vs ++ ws) (ts ++ us.map (Triangle.shift vs.length)) := by
  have hcorners : (us.map (Triangle.shift vs.length)).flatMap Triangle.corners =
      (us.flatMap Triangle.corners).map (vs.length + ·) := by
    rw [List.flatMap_map, List.map_flatMap]
    rfl
  apply eq_of_lists
  · simp [ofSurface]
  · simp [ofSurface]
  · simp [ofSurface]
  · simp [ofSurface, hcorners, Function.comp_def, UInt32.ofNat_add]

end Buffers

/-! ## Tubes -/

/-- The triangle of one side on a cap, counted from the first centre of the cap. -/
def Tube.slice (n : Nat) (side : Float32) (i : Nat) : Triangle :=
  if 0 < side then ⟨n + i, n + i + 1, i⟩ else ⟨n + i + 1, n + i, i⟩

namespace Buffers

/-- The side of a tube: its two rings and the triangles between them. -/
def drawSide (place : Vertex → Vertex) (f : Frustum) (n : UInt32) (out : Buffers) : Buffers :=
  let base := out.nextIndex
  let out := out.addVertices ((f.sideRing n.toNat 0).map place)
  let out := out.addVertices ((f.sideRing n.toNat 1).map place)
  (List.range n.toNat).foldl (fun out i =>
    let a := base + UInt32.ofNat i
    let b := base + n + 1 + UInt32.ofNat i
    out.addIndices [a, b, a + 1, b, b + 1, a + 1]) out

/-- A cap of a tube: its centres, its rim, and the triangles between them.  Those of the
lower cap run the other way. -/
def drawCap (place : Vertex → Vertex) (f : Frustum) (n : UInt32) (radius side : Float32)
    (out : Buffers) : Buffers :=
  let centre := out.nextIndex
  let out := out.addVertices ((f.capCentre n.toNat side).map place)
  let rim := out.nextIndex
  let out := out.addVertices ((f.capRim n.toNat radius side).map place)
  (List.range n.toNat).foldl (fun out i =>
    let c := centre + UInt32.ofNat i
    let r := rim + UInt32.ofNat i
    out.addIndices (if 0 < side then [r, r + 1, c] else [r + 1, r, c])) out

/-- The tube of a segment, put into a mesh as it is made. -/
def drawTube (n : UInt32) (s : Segment) (out : Buffers) : Buffers :=
  let place := Vertex.place (Quat.arcTo s.direction) s.middle
  let out := out.drawSide place s.frustum n
  let out := out.drawCap place s.frustum n s.frustum.top 1
  out.drawCap place s.frustum n s.frustum.bottom (-1)

/-- Drawing puts the same second mesh behind every mesh. -/
def Appends (draw : Buffers → Buffers) (m : Buffers) : Prop := ∀ out, draw out = out ++ m

/-- One drawing after another puts both meshes behind. -/
theorem Appends.then {draw again : Buffers → Buffers} {m k : Buffers} (h : Appends draw m)
    (hagain : Appends again k) : Appends (fun out => again (draw out)) (m ++ k) := by
  intro out
  show again (draw out) = _
  rw [hagain, h, append_assoc]

theorem addVertices_append (out : Buffers) (vs ws : List Vertex) :
    (out.addVertices vs).addVertices ws = out.addVertices (vs ++ ws) :=
  List.foldl_append.symm

/-- The side depends on the mesh only in where it begins. -/
theorem appends_drawSide (place : Vertex → Vertex) (f : Frustum) (n : UInt32) :
    Appends (drawSide place f n)
      (ofSurface ((f.sideRing n.toNat 0).map place ++ (f.sideRing n.toNat 1).map place)
        ((List.range n.toNat).flatMap (Tube.side n.toNat))) := by
  intro out
  have hcorners : ∀ i, ((Tube.side n.toNat i).flatMap Triangle.corners).map
      (fun v => out.nextIndex + UInt32.ofNat v) =
      [out.nextIndex + UInt32.ofNat i, out.nextIndex + n + 1 + UInt32.ofNat i,
        out.nextIndex + UInt32.ofNat i + 1, out.nextIndex + n + 1 + UInt32.ofNat i,
        out.nextIndex + n + 1 + UInt32.ofNat i + 1, out.nextIndex + UInt32.ofNat i + 1] := by
    intro i
    simp [Tube.side, Triangle.corners, Tube.lowerRing, UInt32.ofNat_add, UInt32.add_assoc]
  rw [← addIndices_addVertices, List.flatMap_assoc, List.map_flatMap, funext hcorners,
    ← addVertices_append, ← foldl_addIndices]
  rfl

theorem nextIndex_addVertices (out : Buffers) (vertices : List Vertex) :
    (out.addVertices vertices).nextIndex = out.nextIndex + UInt32.ofNat vertices.length := by
  simp [addVertices_eq, nextIndex, vertexCount, ofSurface, UInt32.ofNat_add]

/-- A cap depends on the mesh only in where it begins. -/
theorem appends_drawCap (place : Vertex → Vertex) (f : Frustum) (n : UInt32)
    (radius side : Float32) :
    Appends (drawCap place f n radius side)
      (ofSurface ((f.capCentre n.toNat side).map place ++ (f.capRim n.toNat radius side).map place)
        ((List.range n.toNat).map (Tube.slice n.toNat side))) := by
  intro out
  have hcentres : ((f.capCentre n.toNat side).map place).length = n.toNat := by
    rw [List.length_map, Frustum.length_capCentre]
  have hcorners : ∀ i, (Tube.slice n.toNat side i).corners.map
      (fun v => out.nextIndex + UInt32.ofNat v) =
      if 0 < side then
        [out.nextIndex + n + UInt32.ofNat i, out.nextIndex + n + UInt32.ofNat i + 1,
          out.nextIndex + UInt32.ofNat i]
      else
        [out.nextIndex + n + UInt32.ofNat i + 1, out.nextIndex + n + UInt32.ofNat i,
          out.nextIndex + UInt32.ofNat i] := by
    intro i
    rw [Tube.slice]
    split <;> simp [Triangle.corners, UInt32.ofNat_add, UInt32.add_assoc]
  rw [← addIndices_addVertices, List.flatMap_map, List.map_flatMap, funext hcorners,
    ← addVertices_append, ← foldl_addIndices, drawCap, nextIndex_addVertices, hcentres,
    UInt32.ofNat_toNat]

end Buffers

namespace Tube

theorem shift_slice_upper (n i : Nat) : (slice n 1 i).shift (upperCap n) = upperSlice n i := by
  have hside : (0 : Float32) < 1 := by decide
  rw [slice, if_pos hside, Triangle.shift, upperSlice]
  simp only [Nat.add_assoc]

theorem shift_slice_lower (n i : Nat) : (slice n (-1) i).shift (lowerCap n) = lowerSlice n i := by
  have hside : ¬ (0 : Float32) < -1 := by decide
  rw [slice, if_neg hside, Triangle.shift, lowerSlice]
  simp only [Nat.add_assoc]

/-- The triangles of a tube are those of its side and of its caps, each moved behind what
comes before. -/
theorem triangles_eq (n : Nat) :
    triangles n = (List.range n).flatMap (side n) ++
      ((List.range n).map (slice n 1)).map (Triangle.shift (upperCap n)) ++
      ((List.range n).map (slice n (-1))).map (Triangle.shift (lowerCap n)) := by
  rw [List.map_map, List.map_map, triangles]
  simp only [Function.comp_def, shift_slice_upper, shift_slice_lower]

end Tube

/-- A tube depends on the mesh only in where it begins. -/
theorem Buffers.appends_drawTube (n : UInt32) (s : Segment) :
    Appends (drawTube n s) (s.tube n.toNat) := by
  generalize hplace : Vertex.place (Quat.arcTo s.direction) s.middle = place
  have hdraw := ((appends_drawSide place s.frustum n).then
    (appends_drawCap place s.frustum n s.frustum.top 1)).then
    (appends_drawCap place s.frustum n s.frustum.bottom (-1))
  have hupper : ((s.frustum.sideRing n.toNat 0).map place ++
      (s.frustum.sideRing n.toNat 1).map place).length = Tube.upperCap n.toNat := by
    rw [List.length_append, List.length_map, List.length_map, Frustum.length_sideRing,
      Frustum.length_sideRing, Tube.upperCap]
    omega
  have hlower : (((s.frustum.sideRing n.toNat 0).map place ++
      (s.frustum.sideRing n.toNat 1).map place) ++
      ((s.frustum.capCentre n.toNat 1).map place ++
        (s.frustum.capRim n.toNat s.frustum.top 1).map place)).length =
      Tube.lowerCap n.toNat := by
    rw [List.length_append, hupper, List.length_append, List.length_map, List.length_map,
      Frustum.length_capCentre, Frustum.length_capRim, Tube.lowerCap]
    omega
  rw [ofSurface_append, ofSurface_append, hupper, hlower, ← Tube.triangles_eq] at hdraw
  intro out
  rw [drawTube, Segment.tube, hplace, Frustum.vertices]
  simp only [List.map_append]
  exact hdraw out

/-! ## Segments -/

namespace MeshStyle

/-- Draws some segments into a mesh.  Those that are too short are left out. -/
def draw (style : MeshStyle) (segments : List Segment) (out : Buffers) : Buffers :=
  segments.foldl (fun out s => if style.skips s then out else out.drawTube style.sides s) out

theorem branches_cons (style : MeshStyle) (s : Segment) (segments : List Segment) :
    style.branches (s :: segments) =
      if style.skips s then style.branches segments
      else s.tube style.sides.toNat ++ style.branches segments := by
  cases hs : style.skips s with
  | true => simp [branches, hs]
  | false => simp [branches, hs, Buffers.join_cons]

/-- What is drawn depends on the mesh only in where it begins. -/
theorem appends_draw (style : MeshStyle) (segments : List Segment) :
    Buffers.Appends (style.draw segments) (style.branches segments) := by
  intro out
  induction segments generalizing out with
  | nil => exact (Buffers.append_empty out).symm
  | cons s segments ih =>
    rw [draw, List.foldl_cons, ← draw, ih, branches_cons]
    cases style.skips s with
    | true => rfl
    | false =>
      rw [if_neg Bool.false_ne_true, if_neg Bool.false_ne_true, Buffers.appends_drawTube,
        Buffers.append_assoc]

/-- The branches are what is drawn into an empty mesh. -/
theorem branches_eq_draw (style : MeshStyle) (segments : List Segment) :
    style.branches segments = style.draw segments .empty := by
  rw [style.appends_draw, Buffers.empty_append]

theorem draw_append (style : MeshStyle) (as bs : List Segment) (out : Buffers) :
    style.draw (as ++ bs) out = style.draw bs (style.draw as out) := List.foldl_append

theorem branches_append (style : MeshStyle) (as bs : List Segment) :
    style.branches (as ++ bs) = style.branches as ++ style.branches bs := by
  rw [branches_eq_draw, draw_append, ← branches_eq_draw, style.appends_draw]

/-- Segments that are too short have no part in the branches. -/
theorem branches_filter (style : MeshStyle) (segments : List Segment) :
    style.branches (segments.filter fun s =>
      ¬ s.length < style.minLength ∧ ¬ s.length ≤ pointLength) = style.branches segments := by
  have hlong : ∀ s : Segment, decide (¬ s.length < style.minLength ∧ ¬ s.length ≤ pointLength) =
      !style.skips s := fun s => by simp [skips]
  simp only [hlong, branches, List.filter_filter, Bool.and_self]

end MeshStyle

/-- The branches of a skeleton are drawn into one mesh, and each segment adds to it the same
as to any other.  So the branches of two lists of segments in one are those of the first,
followed by those of the second: vertices are the same, to the last bit, and indices are
moved by the number of vertices in front, modulo `2 ^ 32`.  In particular what a segment
adds does not depend on those before and behind it, and segments that are too short can be
left out. -/
theorem branches_merge (σ : Type) [RandomSource σ] (style : MeshStyle) :
    let branches (s : Skeleton) (rng : σ) := (style.assemble s rng).value.1.branches
    (∀ (s : Skeleton) (rng : σ),
      branches s rng = style.draw s.segments.toList .empty ∧
        ∀ out, style.draw s.segments.toList out = out ++ branches s rng) ∧
    (∀ (a b : Skeleton) (strays unclosed : Nat) (rng rngA rngB : σ),
      let whole := branches ⟨a.segments ++ b.segments, strays, unclosed⟩ rng
      let first := branches a rngA
      let second := branches b rngB
      whole.positions = first.positions ++ second.positions ∧
        whole.normals = first.normals ++ second.normals ∧
        whole.uvs = first.uvs ++ second.uvs ∧
        whole.indices = first.indices ++
          second.indices.map (UInt32.ofNat first.vertexCount + ·)) ∧
    (∀ (a b : Skeleton) (s : Segment) (strays unclosed : Nat) (rng rngA rngB rngS : σ),
      branches ⟨a.segments ++ #[s] ++ b.segments, strays, unclosed⟩ rng =
        branches a rngA ++ branches ⟨#[s], 0, 0⟩ rngS ++ branches b rngB) ∧
    ∀ (a : Skeleton) (strays unclosed : Nat) (rng rngA : σ),
      let long := a.segments.filter fun s =>
        ¬ s.length < style.minLength ∧ ¬ s.length ≤ MeshStyle.pointLength
      branches ⟨long, strays, unclosed⟩ rng = branches a rngA := by
  intro branches
  have hbranches : ∀ s rng, branches s rng = style.branches s.segments.toList := by
    intro s rng
    show (style.assemble s rng).value.1.branches = _
    rw [style.value_assemble]
  simp only [hbranches, Array.toList_append, Array.toList_filter]
  refine ⟨fun s _ => ⟨style.branches_eq_draw _, style.appends_draw _⟩, ?_, ?_, ?_⟩
  · intro a b _ _ _ _ _
    rw [style.branches_append]
    exact ⟨rfl, rfl, rfl, rfl⟩
  · intro a b s _ _ _ _ _ _
    rw [style.branches_append, style.branches_append]
  · intro a _ _ _ _
    exact style.branches_filter a.segments.toList

end Arbor
