import Arbor.Mesh.Tree
import Arbor.Proofs.TubeRoles

/-!
# The layout of branches

The tubes of a tree lie in its mesh one behind the other, in blocks of one size.

*Blocks.*  Meshes of one size, put together, are cut up again by counting
(`Buffers.positions_join_block`, `Buffers.indices_join_block`).

*Tubes.*  All tubes with `n` sides have `6 n + 4` vertices and `12 n` indices
(`Segment.sized_tube`).  A tube that has a side has no vertex without a triangle
(`Tube.mem_corners_iff`), so the indices of a block name its own vertices, all of them
and no others.
-/

namespace Arbor

/-! ## Blocks -/

namespace Buffers

/-- A mesh has some number of vertices and some number of indices. -/
structure Sized (vertices indices : Nat) (b : Buffers) : Prop where
  /-- Every vertex has its position. -/
  positions : b.positions.size = vertices
  /-- Every vertex has its normal. -/
  normals : b.normals.size = vertices
  /-- Every vertex has its place on the texture. -/
  uvs : b.uvs.size = vertices
  /-- There are that many indices. -/
  indices : b.indices.size = indices

theorem sized_empty : Sized 0 0 empty := ⟨rfl, rfl, rfl, rfl⟩

theorem sized_ofSurface (vertices : List Vertex) (triangles : List Triangle) :
    (ofSurface vertices triangles).Sized vertices.length
      (triangles.flatMap Triangle.corners).length := by
  constructor <;> simp only [ofSurface, List.size_toArray, List.length_map]

variable {a b : Buffers} {bs : List Buffers} {v w i j : Nat}

theorem Sized.append (ha : a.Sized v i) (hb : b.Sized w j) : (a ++ b).Sized (v + w) (i + j) := by
  constructor
  · rw [positions_append, Array.size_append, ha.positions, hb.positions]
  · rw [normals_append, Array.size_append, ha.normals, hb.normals]
  · rw [uvs_append, Array.size_append, ha.uvs, hb.uvs]
  · rw [indices_append, Array.size_append, Array.size_map, ha.indices, hb.indices]

theorem join_cons (b : Buffers) (bs : List Buffers) : join (b :: bs) = b ++ join bs := by
  rw [join, List.foldl_cons, foldl_append_eq, empty_append]

theorem sized_join (h : ∀ b ∈ bs, b.Sized v i) :
    (join bs).Sized (bs.length * v) (bs.length * i) := by
  induction bs with
  | nil =>
    rw [List.length_nil, Nat.zero_mul, Nat.zero_mul]
    exact sized_empty
  | cons b bs ih =>
    have hrest := ih fun c hc => h c (List.mem_cons_of_mem _ hc)
    rw [join_cons, List.length_cons, Nat.succ_mul, Nat.succ_mul, Nat.add_comm _ v, Nat.add_comm _ i]
    exact (h b List.mem_cons_self).append hrest

/-- Among meshes of one size, those before the `k`-th one take up `k` blocks. -/
theorem positions_join_block (h : ∀ b ∈ bs, b.Sized v i) {k : Nat} (hk : bs[k]? = some b) :
    ((join bs).positions.toList.drop (k * v)).take v = b.positions.toList := by
  induction bs generalizing k with
  | nil => cases hk
  | cons c bs ih =>
    have hc := (h c List.mem_cons_self).positions
    rw [← Array.length_toList] at hc
    rw [join_cons, positions_append, Array.toList_append]
    cases k with
    | zero =>
      cases hk
      rw [Nat.zero_mul, List.drop_zero, List.take_left' hc]
    | succ k =>
      rw [Nat.succ_mul, Nat.add_comm, ← List.drop_drop, List.drop_left' hc]
      exact ih (fun d hd => h d (List.mem_cons_of_mem _ hd)) hk

/-- The indices of a block are those of its mesh, moved behind the vertices of the
blocks in front. -/
theorem indices_join_block (h : ∀ b ∈ bs, b.Sized v i) {k : Nat} (hk : bs[k]? = some b) :
    ((join bs).indices.toList.drop (k * i)).take i =
      b.indices.toList.map (UInt32.ofNat (k * v) + ·) := by
  induction bs generalizing k with
  | nil => cases hk
  | cons c bs ih =>
    have hsize := h c List.mem_cons_self
    have hc := hsize.indices
    rw [← Array.length_toList] at hc
    rw [join_cons, indices_append, Array.toList_append, Array.toList_map, hsize.positions]
    cases k with
    | zero =>
      cases hk
      simp [List.take_left' hc]
    | succ k =>
      have hrest := ih (fun d hd => h d (List.mem_cons_of_mem _ hd)) hk
      rw [Nat.succ_mul, Nat.add_comm, ← List.drop_drop, List.drop_left' hc, ← List.map_drop,
        ← List.map_take, hrest, List.map_map, Nat.succ_mul, Nat.add_comm, UInt32.ofNat_add]
      simp only [Function.comp_def, UInt32.add_assoc]

end Buffers

/-! ## Tubes -/

theorem Frustum.length_vertices (f : Frustum) (n : Nat) : (f.vertices n).length = 6 * n + 4 := by
  have hroles := congrArg List.length (f.map_part_roles n)
  rw [List.length_map, List.length_map, Tube.length_roles] at hroles
  exact hroles.symm

namespace Tube

theorem length_corners (n : Nat) : ((triangles n).flatMap Triangle.corners).length = 12 * n := by
  have hcorners : ∀ t : Triangle, t.corners.length = 3 := fun _ => rfl
  have hsides : ((List.range n).flatMap (side n)).length = n * 2 := by
    simp [List.length_flatMap, side]
  simp only [List.length_flatMap, hcorners, List.map_const', List.sum_replicate_nat, triangles,
    List.length_append, hsides, List.length_map, List.length_range]
  omega

theorem within_of_mem_roles {n : Nat} {r : Role} (h : r ∈ roles n) : r.Within n := by
  simp only [roles, List.mem_append, List.mem_map, List.mem_range] at h
  obtain ((⟨i, hi, rfl⟩ | ⟨i, hi, rfl⟩) | ⟨i, hi, rfl⟩ | ⟨i, hi, rfl⟩) | ⟨i, hi, rfl⟩ |
    ⟨i, hi, rfl⟩ := h
  · exact Nat.le_of_lt_succ hi
  · exact Nat.le_of_lt_succ hi
  · exact hi
  · exact Nat.le_of_lt_succ hi
  · exact hi
  · exact Nat.le_of_lt_succ hi

/-- Every number is that of a role. -/
theorem exists_role {n v : Nat} (h : v < 6 * n + 4) : ∃ r : Role, r.Within n ∧ number n r = v := by
  have hmem := List.mem_range.mpr h
  rw [← map_number_roles] at hmem
  obtain ⟨r, hr, hv⟩ := List.mem_map.mp hmem
  exact ⟨r, within_of_mem_roles hr, hv⟩

section faces

variable {n i : Nat}

theorem sideFaces_mem (h : i < n) {f : Face Role} (hf : f ∈ sideFaces i) : f ∈ faces n :=
  mem_faces.mpr ⟨i, h, .inl hf⟩

theorem upperFace_mem (h : i < n) : upperFace i ∈ faces n :=
  mem_faces.mpr ⟨i, h, .inr (.inl rfl)⟩

theorem lowerFace_mem (h : i < n) : lowerFace i ∈ faces n :=
  mem_faces.mpr ⟨i, h, .inr (.inr rfl)⟩

end faces

/-- Every vertex of a tube is a point of a face.  The faces begin at all columns but
the last one, where the face before it ends. -/
theorem exists_face {n : Nat} (hn : 0 < n) {r : Role} (h : r.Within n) :
    ∃ f ∈ faces n, r ∈ f.points := by
  have hlast : n - 1 < n := Nat.sub_one_lt_of_lt hn
  have hnext : n - 1 + 1 = n := Nat.sub_one_add_one_eq_of_pos hn
  cases r with
  | side e column =>
    rcases Nat.lt_or_eq_of_le h with hlt | rfl
    · refine ⟨_, sideFaces_mem hlt List.mem_cons_self, ?_⟩
      cases e <;> simp [Face.points]
    · cases e with
      | upper => exact ⟨_, sideFaces_mem hlast List.mem_cons_self, by simp [Face.points, hnext]⟩
      | lower =>
        exact ⟨_, sideFaces_mem hlast (List.mem_cons_of_mem _ List.mem_cons_self),
          by simp [Face.points, hnext]⟩
  | centre e slice =>
    cases e with
    | upper => exact ⟨_, upperFace_mem h, by simp [upperFace, Face.points]⟩
    | lower => exact ⟨_, lowerFace_mem h, by simp [lowerFace, Face.points]⟩
  | rim e column =>
    rcases Nat.lt_or_eq_of_le h with hlt | rfl
    · cases e with
      | upper => exact ⟨_, upperFace_mem hlt, by simp [upperFace, Face.points]⟩
      | lower => exact ⟨_, lowerFace_mem hlt, by simp [lowerFace, Face.points]⟩
    · cases e with
      | upper => exact ⟨_, upperFace_mem hlast, by simp [upperFace, Face.points, hnext]⟩
      | lower => exact ⟨_, lowerFace_mem hlast, by simp [lowerFace, Face.points, hnext]⟩

theorem lt_of_mem_corners {n v : Nat} (h : v ∈ (triangles n).flatMap Triangle.corners) :
    v < 6 * n + 4 := by
  rw [corners_triangles] at h
  obtain ⟨r, hr, rfl⟩ := List.mem_map.mp h
  obtain ⟨f, hf, hr⟩ := List.mem_flatMap.mp hr
  exact number_lt (within_of_mem_faces hf r hr)

/-- The corners of the triangles of a tube are its vertices. -/
theorem mem_corners_iff {n v : Nat} (hn : 0 < n) :
    v ∈ (triangles n).flatMap Triangle.corners ↔ v < 6 * n + 4 := by
  refine ⟨lt_of_mem_corners, fun h => ?_⟩
  obtain ⟨r, hr, rfl⟩ := exists_role h
  obtain ⟨f, hf, hr⟩ := exists_face hn hr
  rw [corners_triangles]
  exact List.mem_map_of_mem (List.mem_flatMap.mpr ⟨f, hf, hr⟩)

end Tube

namespace Segment

/-- All tubes with so many sides are of one size. -/
theorem sized_tube (s : Segment) (n : Nat) : (s.tube n).Sized (6 * n + 4) (12 * n) := by
  have hsurface := Buffers.sized_ofSurface
    ((s.frustum.vertices n).map (Vertex.place (Quat.arcTo s.direction) s.middle)) (Tube.triangles n)
  rw [List.length_map, Frustum.length_vertices, Tube.length_corners] at hsurface
  exact hsurface

/-- Moved behind other vertices, the indices of a tube still are the corners of its
triangles, as long as all of these can be numbered. -/
theorem toNat_moved_indices (s : Segment) {n base : Nat} (h : base + (6 * n + 4) ≤ 2 ^ 32) :
    ((s.tube n).indices.toList.map (UInt32.ofNat base + ·)).map UInt32.toNat =
      ((Tube.triangles n).flatMap Triangle.corners).map (base + ·) := by
  rw [tube, Buffers.ofSurface, List.toList_toArray, List.map_map, List.map_map]
  refine List.map_congr_left fun v hv => ?_
  have hlt := Tube.lt_of_mem_corners hv
  rw [Function.comp_apply, Function.comp_apply, ← UInt32.ofNat_add, UInt32.toNat_ofNat',
    Nat.mod_eq_of_lt (by omega)]

/-- They name vertices of the tube only. -/
theorem within_of_mem_moved (s : Segment) {n base : Nat} (h : base + (6 * n + 4) ≤ 2 ^ 32)
    {index : UInt32} (hindex : index ∈ (s.tube n).indices.toList.map (UInt32.ofNat base + ·)) :
    base ≤ index.toNat ∧ index.toNat < base + (6 * n + 4) := by
  have hmem := List.mem_map_of_mem (f := UInt32.toNat) hindex
  rw [s.toNat_moved_indices h] at hmem
  obtain ⟨v, hv, hsum⟩ := List.mem_map.mp hmem
  have hlt := Tube.lt_of_mem_corners hv
  omega

/-- They name all of its vertices if it has a side. -/
theorem exists_moved (s : Segment) {n base v : Nat} (h : base + (6 * n + 4) ≤ 2 ^ 32) (hn : 0 < n)
    (hlower : base ≤ v) (hupper : v < base + (6 * n + 4)) :
    ∃ index ∈ (s.tube n).indices.toList.map (UInt32.ofNat base + ·), index.toNat = v := by
  have hcorner : v - base ∈ (Tube.triangles n).flatMap Triangle.corners :=
    (Tube.mem_corners_iff hn).mpr (by omega)
  have hmem := List.mem_map_of_mem (f := (base + ·)) hcorner
  rw [← s.toNat_moved_indices h, Nat.add_sub_cancel' hlower] at hmem
  exact List.mem_map.mp hmem

end Segment

/-! ## Branches -/

/-- The mesh of a skeleton has one block of vertices and one of indices for each segment
that is neither shorter than the style wants nor a point, in the order of the skeleton.
The vertices of a block are those of the segment's tube.  As long as they can be
numbered, the indices of the block name no vertex of another block, and where tubes have
sides they name every vertex of their own. -/
theorem branches_in_blocks {σ : Type} [RandomSource σ] (style : MeshStyle) (s : Skeleton)
    (rng : σ) :
    let vertices := style.verticesPerSegment
    let indices := style.indicesPerSegment
    let drawn := s.segments.toList.filter fun segment =>
      ¬ segment.length < style.minLength ∧ ¬ segment.length ≤ MeshStyle.pointLength
    let branches := (style.assemble s rng).value.1.branches
    branches.Sized (drawn.length * vertices) (drawn.length * indices) ∧
      ∀ k segment, drawn[k]? = some segment →
        let block := (branches.positions.toList.drop (k * vertices)).take vertices
        let run := (branches.indices.toList.drop (k * indices)).take indices
        block = (segment.tube style.sides.toNat).positions.toList ∧
          run.length = indices ∧
          ((k + 1) * vertices ≤ 2 ^ 32 →
            (∀ index ∈ run,
              k * vertices ≤ index.toNat ∧ index.toNat < (k + 1) * vertices) ∧
            (1 ≤ style.sides →
              ∀ v, k * vertices ≤ v → v < (k + 1) * vertices →
                ∃ index ∈ run, index.toNat = v)) := by
  intro vertices indices drawn branches
  generalize hn : style.sides.toNat = n
  have hvertices : vertices = 6 * n + 4 := by rw [← hn]; rfl
  have hindices : indices = 12 * n := by rw [← hn]; rfl
  have hdrawn : drawn = s.segments.toList.filter fun segment => !style.skips segment := by
    refine List.filter_congr fun segment _ => ?_
    simp [MeshStyle.skips]
  have hbranches : branches = .join (drawn.map (Segment.tube n)) := by
    rw [hdrawn, ← hn]
    rfl
  have hsized : ∀ b ∈ drawn.map (Segment.tube n), b.Sized vertices indices := by
    intro b hb
    obtain ⟨segment, -, rfl⟩ := List.mem_map.mp hb
    rw [hvertices, hindices]
    exact segment.sized_tube n
  constructor
  · have hjoin := Buffers.sized_join hsized
    rwa [List.length_map, ← hbranches] at hjoin
  intro k segment hk block run
  have htube : (drawn.map (Segment.tube n))[k]? = some (segment.tube n) := by
    rw [List.getElem?_map, hk, Option.map_some]
  have hblock : block = _ := hbranches ▸ Buffers.positions_join_block hsized htube
  have hrun : run = _ := hbranches ▸ Buffers.indices_join_block hsized htube
  refine ⟨hblock, ?_, fun hroom => ?_⟩
  · rw [hrun, List.length_map, Array.length_toList, (segment.sized_tube n).indices, hindices]
  have hend : (k + 1) * vertices = k * vertices + (6 * n + 4) := by rw [Nat.succ_mul, hvertices]
  rw [hend] at hroom ⊢
  rw [hrun]
  refine ⟨fun index hindex => segment.within_of_mem_moved hroom hindex, ?_⟩
  intro hside v hlower hupper
  have hpos : 0 < n := by
    rw [← hn]
    exact hside
  exact segment.exists_moved hroom hpos hlower hupper

/-- Three segments, of which the second one is a point. -/
def Skeleton.notched : Skeleton where
  segments := #[⟨⟨0, 0, 0⟩, ⟨0, 1, 0⟩, 0.2, 0.1, none⟩, ⟨⟨0, 1, 0⟩, ⟨0, 1, 0⟩, 0.1, 0.1, some 0⟩,
    ⟨⟨0, 1, 0⟩, ⟨0, 3, 0⟩, 0.1, 0, some 0⟩]
  strays := 0
  unclosed := 0

/-- The third segment comes behind the first one.  Its indices name the vertices from 22
to 43, the last one of them, too. -/
theorem branches_in_blocks_notched :
    let style : MeshStyle := { MeshStyle.octagonal with sides := 3 }
    let branches := (style.assemble .notched (Rng.ofSeed 7)).value.1.branches
    let run := (branches.indices.toList.drop 36).take 36
    (Skeleton.notched.segments.toList.filter fun segment =>
        ¬ segment.length < style.minLength ∧ ¬ segment.length ≤ MeshStyle.pointLength)[1]? =
        some ⟨⟨0, 1, 0⟩, ⟨0, 3, 0⟩, 0.1, 0, some 0⟩ ∧
      (1 + 1) * style.verticesPerSegment ≤ 2 ^ 32 ∧ 1 ≤ style.sides ∧
      (∀ index ∈ run, 22 ≤ index.toNat ∧ index.toNat < 44) ∧ ∃ index ∈ run, index.toNat = 43 := by
  intro style branches run
  have hsecond : (Skeleton.notched.segments.toList.filter fun segment =>
      ¬ segment.length < style.minLength ∧ ¬ segment.length ≤ MeshStyle.pointLength)[1]? =
      some ⟨⟨0, 1, 0⟩, ⟨0, 3, 0⟩, 0.1, 0, some 0⟩ := by decide +kernel
  have hroom : (1 + 1) * style.verticesPerSegment ≤ 2 ^ 32 := by decide
  have hsides : 1 ≤ style.sides := by decide
  obtain ⟨hown, hall⟩ :=
    ((branches_in_blocks style .notched (Rng.ofSeed 7)).2 1 _ hsecond).2.2 hroom
  exact ⟨hsecond, hroom, hsides, hown, hall hsides 43 (by decide) (by decide)⟩

end Arbor
