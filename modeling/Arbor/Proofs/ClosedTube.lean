import Arbor.Proofs.TubeRoles

/-!
# Closed tubes

A tube is a closed surface whose triangles all face the same way.

*Edges.*  Side and caps run along each other's edges in opposite directions.  Which
face runs along an edge can be told from its two points (`Tube.faceAt`).  With fewer
than three sides it could not, since a column would come both before and after another
one.

*Points.*  Two rings and two centres are all points of a tube (`Tube.points`).
-/

namespace Arbor

namespace Tube

/-! ## Columns -/

/-- The column behind a column. -/
def next (n i : Nat) : Nat := (i + 1) % n

/-- The column before a column. -/
def prev (n i : Nat) : Nat := (i + (n - 1)) % n

section columns

variable {n i : Nat}

theorem next_eq (h : i < n) : next n i = if i + 1 = n then 0 else i + 1 := by
  unfold next
  split
  next hlast => rw [hlast, Nat.mod_self]
  next hlast => exact Nat.mod_eq_of_lt (by omega)

theorem prev_eq (h : i < n) : prev n i = if i = 0 then n - 1 else i - 1 := by
  unfold prev
  split
  next hfirst => rw [hfirst, Nat.zero_add, Nat.mod_eq_of_lt (by omega)]
  next hfirst =>
    have hsum : i + (n - 1) = i - 1 + n := by omega
    rw [hsum, Nat.add_mod_right, Nat.mod_eq_of_lt (by omega)]

theorem next_lt (h : i < n) : next n i < n := Nat.mod_lt _ (by omega)

theorem prev_lt (h : i < n) : prev n i < n := Nat.mod_lt _ (by omega)

theorem prev_next (h : i < n) : prev n (next n i) = i := by
  rw [prev_eq (next_lt h), next_eq h]
  split <;> split <;> omega

theorem next_prev (h : i < n) : next n (prev n i) = i := by
  rw [next_eq (prev_lt h), prev_eq h]
  split <;> split <;> omega

theorem next_ne (h : i < n) (hn : 3 ≤ n) : next n i ≠ i := by
  rw [next_eq h]
  split <;> omega

/-- From three columns on, two steps lead to another column. -/
theorem next_next_ne (h : i < n) (hn : 3 ≤ n) : next n (next n i) ≠ i := by
  rw [next_eq (next_lt h), next_eq h]
  split <;> split <;> omega

end columns

/-! ## Faces -/

/-- The face of a side at its upper end. -/
def upperSide (n i : Nat) : Face Point :=
  ⟨.ring .upper i, .ring .lower i, .ring .upper (next n i)⟩

/-- The face of a side at its lower end. -/
def lowerSide (n i : Nat) : Face Point :=
  ⟨.ring .lower i, .ring .lower (next n i), .ring .upper (next n i)⟩

/-- The face of a side on the upper cap. -/
def upperLid (n i : Nat) : Face Point :=
  ⟨.ring .upper i, .ring .upper (next n i), .centre .upper⟩

/-- The face of a side on the lower cap. -/
def lowerLid (n i : Nat) : Face Point :=
  ⟨.ring .lower (next n i), .ring .lower i, .centre .lower⟩

/-- The faces of a tube between the points for which its vertices stand. -/
def surface (n : Nat) : List (Face Point) := (faces n).map (Face.map (Role.point n))

theorem surface_eq (n : Nat) :
    surface n = (List.range n).flatMap (fun i => [upperSide n i, lowerSide n i])
      ++ (List.range n).map (upperLid n) ++ (List.range n).map (lowerLid n) := by
  have hcolumn : ∀ i ∈ List.range n, i % n = i := fun i hi =>
    Nat.mod_eq_of_lt (List.mem_range.mp hi)
  rw [surface, faces, List.map_append, List.map_append, List.map_flatMap, List.map_map,
    List.map_map]
  congr 1
  · congr 1
    · refine List.flatMap_congr fun i hi => ?_
      simp [sideFaces, upperSide, lowerSide, Face.map, Role.point, next, hcolumn i hi]
    · refine List.map_congr_left fun i hi => ?_
      simp [upperFace, upperLid, Face.map, Role.point, next, hcolumn i hi]
  · refine List.map_congr_left fun i hi => ?_
    simp [lowerFace, lowerLid, Face.map, Role.point, next, hcolumn i hi]

theorem mem_surface {n : Nat} {f : Face Point} :
    f ∈ surface n ↔
      ∃ i < n, f = upperSide n i ∨ f = lowerSide n i ∨ f = upperLid n i ∨ f = lowerLid n i := by
  simp only [surface_eq, List.mem_append, List.mem_flatMap, List.mem_map, List.mem_range,
    List.mem_cons, List.not_mem_nil, or_false]
  constructor
  · rintro ((⟨i, hi, rfl | rfl⟩ | ⟨i, hi, rfl⟩) | ⟨i, hi, rfl⟩)
    · exact ⟨i, hi, .inl rfl⟩
    · exact ⟨i, hi, .inr (.inl rfl)⟩
    · exact ⟨i, hi, .inr (.inr (.inl rfl))⟩
    · exact ⟨i, hi, .inr (.inr (.inr rfl))⟩
  · rintro ⟨i, hi, rfl | rfl | rfl | rfl⟩
    · exact .inl (.inl ⟨i, hi, .inl rfl⟩)
    · exact .inl (.inl ⟨i, hi, .inr rfl⟩)
    · exact .inl (.inr ⟨i, hi, rfl⟩)
    · exact .inr ⟨i, hi, rfl⟩

theorem length_surface (n : Nat) : (surface n).length = 4 * n := by
  have hside : ∀ m, ((List.range m).flatMap sideFaces).length = 2 * m := by
    intro m
    simp [List.length_flatMap, sideFaces, Nat.mul_comm]
  rw [surface, faces, List.length_map, List.length_append, List.length_append, hside,
    List.length_map, List.length_map, List.length_range]
  omega

/-- No face comes twice. -/
theorem nodup_surface (n : Nat) : (surface n).Nodup := by
  have hside : ((List.range n).flatMap fun i => [upperSide n i, lowerSide n i]).Nodup := by
    refine List.nodup_flatMap.mpr ⟨fun i _ => by simp [upperSide, lowerSide], ?_⟩
    refine List.nodup_range.imp fun {i j} hne f hi hj => ?_
    simp only [upperSide, lowerSide, List.mem_cons, List.not_mem_nil, or_false] at hi hj
    rcases hi with rfl | rfl <;> simp [hne] at hj
  have hupper : ((List.range n).map (upperLid n)).Nodup := by
    refine List.nodup_range.map fun i j h => ?_
    simpa [upperLid] using congrArg Face.a h
  have hlower : ((List.range n).map (lowerLid n)).Nodup := by
    refine List.nodup_range.map fun i j h => ?_
    simpa [lowerLid] using congrArg Face.b h
  rw [surface_eq]
  refine (hside.append hupper ?_).append hlower ?_
  · intro f hs hu
    simp only [List.mem_flatMap, List.mem_cons, List.not_mem_nil, or_false, List.mem_map] at hs hu
    obtain ⟨i, -, rfl | rfl⟩ := hs <;> simp [upperSide, lowerSide, upperLid] at hu
  · intro f hs hl
    simp only [List.mem_append, List.mem_flatMap, List.mem_cons, List.not_mem_nil, or_false,
      List.mem_map] at hs hl
    obtain ⟨i, -, rfl | rfl⟩ | ⟨i, -, rfl⟩ := hs <;>
      simp [upperSide, lowerSide, upperLid, lowerLid] at hl

theorem nodup_points_of_mem_surface {n : Nat} (hn : 3 ≤ n) {f : Face Point} (hf : f ∈ surface n) :
    f.points.Nodup := by
  obtain ⟨i, hi, hf⟩ := mem_surface.mp hf
  have hnext := next_ne hi hn
  rcases hf with rfl | rfl | rfl | rfl
  · simp [upperSide, Face.points, hnext.symm]
  · simp [lowerSide, Face.points, hnext.symm]
  · simp [upperLid, Face.points, hnext.symm]
  · simp [lowerLid, Face.points, hnext]

/-! ## Edges -/

/-- The face that runs along an edge of a tube. -/
def faceAt (n : Nat) : Point × Point → Option (Face Point)
  | (.ring .upper i, .ring .lower j) => some (if i = j then upperSide n i else lowerSide n j)
  | (.ring .lower i, .ring .upper j) =>
    some (if i = j then lowerSide n (prev n i) else upperSide n i)
  | (.ring .upper i, .ring .upper j) => some (if j = next n i then upperLid n i else upperSide n j)
  | (.ring .lower i, .ring .lower j) =>
    some (if j = next n i then lowerSide n i else lowerLid n j)
  | (.ring .upper i, .centre .upper) => some (upperLid n (prev n i))
  | (.centre .upper, .ring .upper i) => some (upperLid n i)
  | (.ring .lower i, .centre .lower) => some (lowerLid n i)
  | (.centre .lower, .ring .lower i) => some (lowerLid n (prev n i))
  | _ => none

/-- Every face is the one at each of its edges. -/
theorem faceAt_of_mem {n : Nat} (hn : 3 ≤ n) {f : Face Point} (hf : f ∈ surface n)
    {e : Point × Point} (he : e ∈ f.edges) : faceAt n e = some f := by
  obtain ⟨i, hi, hf⟩ := mem_surface.mp hf
  have hnext := next_ne hi hn
  have hnextnext := next_next_ne hi hn
  have hprev := prev_next hi
  rcases hf with rfl | rfl | rfl | rfl
  · rcases Face.mem_edges.mp he with rfl | rfl | rfl
    · simp [faceAt, upperSide]
    · simp [faceAt, upperSide, hnext.symm]
    · simp [faceAt, upperSide, hnextnext.symm]
  · rcases Face.mem_edges.mp he with rfl | rfl | rfl
    · simp [faceAt, lowerSide]
    · simp [faceAt, lowerSide, hprev]
    · simp [faceAt, lowerSide, hnext]
  · rcases Face.mem_edges.mp he with rfl | rfl | rfl
    · simp [faceAt, upperLid]
    · simp [faceAt, upperLid, hprev]
    · simp [faceAt, upperLid]
  · rcases Face.mem_edges.mp he with rfl | rfl | rfl
    · simp [faceAt, lowerLid, hnextnext.symm]
    · simp [faceAt, lowerLid]
    · simp [faceAt, lowerLid, hprev]

section neighbours

variable {n i : Nat}

theorem upperSide_mem (h : i < n) : upperSide n i ∈ surface n := mem_surface.mpr ⟨i, h, .inl rfl⟩

theorem lowerSide_mem (h : i < n) : lowerSide n i ∈ surface n :=
  mem_surface.mpr ⟨i, h, .inr (.inl rfl)⟩

theorem upperLid_mem (h : i < n) : upperLid n i ∈ surface n :=
  mem_surface.mpr ⟨i, h, .inr (.inr (.inl rfl))⟩

theorem lowerLid_mem (h : i < n) : lowerLid n i ∈ surface n :=
  mem_surface.mpr ⟨i, h, .inr (.inr (.inr rfl))⟩

end neighbours

/-- A face runs back along every edge.  The sides meet in columns, around which they
go, and each cap meets the sides in its rim. -/
theorem swap_mem_edgesOf {n : Nat} {f : Face Point} (hf : f ∈ surface n) {e : Point × Point}
    (he : e ∈ f.edges) : e.swap ∈ edgesOf (surface n) := by
  obtain ⟨i, hi, hf⟩ := mem_surface.mp hf
  have hnext := next_lt hi
  have hprev := prev_lt hi
  have hback := next_prev hi
  rcases hf with rfl | rfl | rfl | rfl
  · rcases Face.mem_edges.mp he with rfl | rfl | rfl
    · refine mem_edgesOf.mpr ⟨_, lowerSide_mem hprev, ?_⟩
      simp [Face.edges, upperSide, lowerSide, hback]
    · exact mem_edgesOf.mpr ⟨_, lowerSide_mem hi, by simp [Face.edges, upperSide, lowerSide]⟩
    · exact mem_edgesOf.mpr ⟨_, upperLid_mem hi, by simp [Face.edges, upperSide, upperLid]⟩
  · rcases Face.mem_edges.mp he with rfl | rfl | rfl
    · exact mem_edgesOf.mpr ⟨_, lowerLid_mem hi, by simp [Face.edges, lowerSide, lowerLid]⟩
    · exact mem_edgesOf.mpr ⟨_, upperSide_mem hnext, by simp [Face.edges, lowerSide, upperSide]⟩
    · exact mem_edgesOf.mpr ⟨_, upperSide_mem hi, by simp [Face.edges, lowerSide, upperSide]⟩
  · rcases Face.mem_edges.mp he with rfl | rfl | rfl
    · exact mem_edgesOf.mpr ⟨_, upperSide_mem hi, by simp [Face.edges, upperLid, upperSide]⟩
    · exact mem_edgesOf.mpr ⟨_, upperLid_mem hnext, by simp [Face.edges, upperLid]⟩
    · refine mem_edgesOf.mpr ⟨_, upperLid_mem hprev, ?_⟩
      simp [Face.edges, upperLid, hback]
  · rcases Face.mem_edges.mp he with rfl | rfl | rfl
    · exact mem_edgesOf.mpr ⟨_, lowerSide_mem hi, by simp [Face.edges, lowerLid, lowerSide]⟩
    · refine mem_edgesOf.mpr ⟨_, lowerLid_mem hprev, ?_⟩
      simp [Face.edges, lowerLid, hback]
    · exact mem_edgesOf.mpr ⟨_, lowerLid_mem hnext, by simp [Face.edges, lowerLid]⟩

theorem isClosedSurface_surface {n : Nat} (hn : 3 ≤ n) : IsClosedSurface (surface n) :=
  .of_faceAt (faceAt n) (nodup_surface n) (fun _ hf => nodup_points_of_mem_surface hn hf)
    (fun _ hf _ he => faceAt_of_mem hn hf he) fun _ hf _ he => swap_mem_edgesOf hf he

/-! ## Points -/

/-- The points of a tube. -/
def points (n : Nat) : List Point :=
  (List.range n).map (.ring .upper) ++ (List.range n).map (.ring .lower)
    ++ [.centre .upper, .centre .lower]

theorem nodup_points (n : Nat) : (points n).Nodup := by
  have hring : ∀ e, ((List.range n).map (Point.ring e)).Nodup := fun e =>
    List.nodup_range.map fun i j h => by simpa using h
  refine ((hring _).append (hring _) ?_).append (by simp) ?_
  · intro p hu hl
    obtain ⟨i, -, rfl⟩ := List.mem_map.mp hu
    simp at hl
  · intro p hr hc
    simp only [List.mem_append, List.mem_map] at hr
    obtain ⟨i, -, rfl⟩ | ⟨i, -, rfl⟩ := hr <;> simp at hc

theorem mem_points {n : Nat} {p : Point} :
    p ∈ points n ↔ ∀ e column, p = .ring e column → column < n := by
  cases p with
  | ring e column => cases e <;> simp [points]
  | centre e => cases e <;> simp [points]

theorem mem_pointsOf_surface {n : Nat} (hn : 0 < n) {p : Point} :
    p ∈ pointsOf (surface n) ↔ p ∈ points n := by
  rw [pointsOf, List.mem_toFinset, List.mem_flatMap]
  constructor
  · rintro ⟨f, hf, hp⟩
    obtain ⟨i, hi, hf⟩ := mem_surface.mp hf
    have hnext := next_lt hi
    simp only [points, List.mem_append, List.mem_map, List.mem_range, List.mem_cons]
    rcases hf with rfl | rfl | rfl | rfl
    · rcases Face.mem_points.mp hp with rfl | rfl | rfl <;> simp [upperSide, hi, hnext]
    · rcases Face.mem_points.mp hp with rfl | rfl | rfl <;> simp [lowerSide, hi, hnext]
    · rcases Face.mem_points.mp hp with rfl | rfl | rfl <;> simp [upperLid, hi, hnext]
    · rcases Face.mem_points.mp hp with rfl | rfl | rfl <;> simp [lowerLid, hi, hnext]
  · intro hp
    cases p with
    | ring e column =>
      have hcolumn := mem_points.mp hp e column rfl
      refine ⟨_, upperSide_mem hcolumn, ?_⟩
      cases e <;> simp [Face.points, upperSide]
    | centre e =>
      cases e with
      | upper => exact ⟨_, upperLid_mem hn, by simp [Face.points, upperLid]⟩
      | lower => exact ⟨_, lowerLid_mem hn, by simp [Face.points, lowerLid]⟩

theorem card_pointsOf_surface {n : Nat} (hn : 0 < n) :
    (pointsOf (surface n)).card = 2 * n + 2 := by
  have hpoints : pointsOf (surface n) = (points n).toFinset := by
    ext p
    rw [mem_pointsOf_surface hn, List.mem_toFinset]
  rw [hpoints, List.toFinset_card_of_nodup (nodup_points n), points, List.length_append,
    List.length_append, List.length_map, List.length_map, List.length_range, Nat.two_mul]
  rfl

/-- The point of the vertex that an index names, in a tube whose vertices begin at a
place in the mesh. -/
def pointAt (n base : Nat) (index : UInt32) : Option Point :=
  (roleAt n base index).map (Role.point n)

theorem points_surface (n : Nat) :
    (surface n).flatMap Face.points = ((faces n).flatMap Face.points).map (Role.point n) := by
  rw [surface, List.flatMap_map, List.map_flatMap]
  rfl

end Tube

/-- The tube that a segment adds to a mesh is a closed surface whose triangles all face
the same way.  Its vertices have the roles of `Tube.roles`, in order, so each of them
stands for a point, and its triangles are the faces of `Tube.surface` between these
points.  To each of its sides there are four faces, two points and six edges, and the
centres of the caps are two more points. -/
theorem isClosedSurface_tube (out : Buffers) (s : Segment) {n : Nat} (hn : 3 ≤ n)
    (hroom : out.vertexCount + (6 * n + 4) ≤ 2 ^ 32) :
    let vertices := (out ++ s.tube n).positions.toList.drop out.vertexCount
    let indices := (out ++ s.tube n).indices.toList.drop out.indices.size
    vertices.map some =
        (Tube.roles n).map (fun role => (s.frustum.part n role).map fun v =>
          (v.place (Quat.arcTo s.direction) s.middle).position) ∧
      indices.map (Tube.pointAt n out.vertexCount) =
        ((Tube.surface n).flatMap Face.points).map some ∧
      IsClosedSurface (Tube.surface n) ∧
      (Tube.surface n).length = 4 * n ∧
      (pointsOf (Tube.surface n)).card = 2 * n + 2 ∧
      (sidesOf (Tube.surface n)).card = 6 * n := by
  intro vertices indices
  have hclosed := Tube.isClosedSurface_surface hn
  have hlength := Tube.length_surface n
  refine ⟨out.positions_append_tube s n, ?_, hclosed, hlength,
    Tube.card_pointsOf_surface (by omega), ?_⟩
  · have hroles := congrArg (List.map (Option.map (Tube.Role.point n)))
      (out.roles_append_tube s n hroom)
    rw [List.map_map, List.map_map] at hroles
    rw [Tube.points_surface, List.map_map]
    exact hroles
  · have hsides := hclosed.card_sidesOf
    omega

/-- A prism behind a leaf. -/
theorem isClosedSurface_tube_prism :
    3 ≤ 3 ∧ (Buffers.quad 1 2).vertexCount + (6 * 3 + 4) ≤ 2 ^ 32 ∧
      ((Buffers.quad 1 2 ++ Segment.tube 3 ⟨⟨0, 0, 0⟩, .unitY, 1, 0.5, none⟩).indices.toList.drop
          (Buffers.quad 1 2).indices.size).map (Tube.pointAt 3 4) =
        ((Tube.surface 3).flatMap Face.points).map some ∧
      IsClosedSurface (Tube.surface 3) ∧ (Tube.surface 3).length = 12 ∧
      (pointsOf (Tube.surface 3)).card = 8 ∧ (sidesOf (Tube.surface 3)).card = 18 := by
  have hroom : (Buffers.quad 1 2).vertexCount + (6 * 3 + 4) ≤ 2 ^ 32 := by decide
  obtain ⟨-, hindices, hclosed, hlength, hpoints, hsides⟩ :=
    isClosedSurface_tube (Buffers.quad 1 2) ⟨⟨0, 0, 0⟩, .unitY, 1, 0.5, none⟩ (Nat.le_refl 3) hroom
  exact ⟨Nat.le_refl 3, hroom, hindices, hclosed, hlength, hpoints, hsides⟩

end Arbor
