import Arbor.Mesh.Tube
import Arbor.Proofs.Surface

/-!
# The roles of a tube's vertices

A vertex of a tube has a role: a column of a side ring, a column of a rim, or the
centre of a cap for one of its slices (`Tube.roles`).  Several vertices stand for one
point and differ in texture and normal.  A column of a ring and the one of the rim at
the same end are the same point, the last column is the first one again, and a cap has
one centre (`Tube.Role.point`).

The vertices that a tube adds to a mesh are those of its roles, in order
(`Buffers.positions_append_tube`).  The triangles that it adds are those between the
roles `Tube.faces`, as long as its vertices can be numbered
(`Buffers.roles_append_tube`).
-/

namespace Arbor

namespace Tube

/-! ## Roles -/

/-- The ends of a tube. -/
inductive End
  /-- The end towards the tip. -/
  | upper
  /-- The end towards the root. -/
  | lower
  deriving DecidableEq, Repr

/-- What a vertex of a tube is there for. -/
inductive Role
  /-- A column of a side ring. -/
  | side (e : End) (column : Nat)
  /-- The centre of a cap, for one slice. -/
  | centre (e : End) (slice : Nat)
  /-- A column of the rim of a cap. -/
  | rim (e : End) (column : Nat)
  deriving DecidableEq, Repr

/-- A point of the surface of a tube. -/
inductive Point
  /-- A point where the side and a cap meet. -/
  | ring (e : End) (column : Nat)
  /-- The centre of a cap. -/
  | centre (e : End)
  deriving DecidableEq, Repr

/-- The point for which a vertex stands.  Behind the last column comes the first one
again. -/
def Role.point (n : Nat) : Role → Point
  | .side e column => .ring e (column % n)
  | .centre e _ => .centre e
  | .rim e column => .ring e (column % n)

/-- The roles of the vertices of a tube, in order. -/
def roles (n : Nat) : List Role :=
  (List.range (n + 1)).map (.side .upper) ++ (List.range (n + 1)).map (.side .lower)
    ++ ((List.range n).map (.centre .upper) ++ (List.range (n + 1)).map (.rim .upper))
    ++ ((List.range n).map (.centre .lower) ++ (List.range (n + 1)).map (.rim .lower))

@[simp] theorem length_roles (n : Nat) : (roles n).length = 6 * n + 4 := by
  simp only [roles, List.length_append, List.length_map, List.length_range]
  omega

/-- The number of the vertex with a role. -/
def number (n : Nat) : Role → Nat
  | .side .upper column => column
  | .side .lower column => lowerRing n + column
  | .centre .upper slice => upperCap n + slice
  | .rim .upper column => upperCap n + n + column
  | .centre .lower slice => lowerCap n + slice
  | .rim .lower column => lowerCap n + n + column

/-- The roles are numbered in order. -/
theorem map_number_roles (n : Nat) : (roles n).map (number n) = List.range (6 * n + 4) := by
  have hsum : 6 * n + 4 = n + 1 + (n + 1) + (n + (n + 1)) + (n + (n + 1)) := by omega
  have hupper : n + 1 + (n + 1) = upperCap n := by
    rw [upperCap]
    omega
  have hlower : upperCap n + (n + (n + 1)) = lowerCap n := by
    rw [lowerCap]
    omega
  simp only [roles, hsum, List.map_append, List.map_map, Function.comp_def, number, lowerRing,
    List.map_id_fun', id_eq]
  -- The columns of a ring stay together.
  generalize n + 1 = m at hupper hlower ⊢
  rw [List.range_add, List.range_add, List.range_add, List.range_add, hupper, hlower]
  simp only [List.map_append, List.map_map, Function.comp_def, Nat.add_assoc]

/-- Whether a tube has a vertex with a role. -/
def Role.Within (n : Nat) : Role → Prop
  | .side _ column => column ≤ n
  | .centre _ slice => slice < n
  | .rim _ column => column ≤ n

theorem mem_roles {n : Nat} {r : Role} (h : r.Within n) : r ∈ roles n := by
  cases r with
  | side e column =>
    have hcolumn := List.mem_range.mpr (Nat.lt_succ_of_le h)
    have hside := List.mem_map_of_mem (f := Role.side e) hcolumn
    cases e <;> simp only [roles, List.mem_append, hside, true_or, or_true]
  | centre e slice =>
    have hcentre := List.mem_map_of_mem (f := Role.centre e) (List.mem_range.mpr h)
    cases e <;> simp only [roles, List.mem_append, hcentre, true_or, or_true]
  | rim e column =>
    have hcolumn := List.mem_range.mpr (Nat.lt_succ_of_le h)
    have hrim := List.mem_map_of_mem (f := Role.rim e) hcolumn
    cases e <;> simp only [roles, List.mem_append, hrim, true_or, or_true]

theorem number_lt {n : Nat} {r : Role} (h : r.Within n) : number n r < 6 * n + 4 := by
  have hmem := List.mem_map_of_mem (f := number n) (mem_roles h)
  rw [map_number_roles] at hmem
  exact List.mem_range.mp hmem

/-- Each role is in its place. -/
theorem getElem?_roles {n : Nat} {r : Role} (h : r.Within n) :
    (roles n)[number n r]? = some r := by
  obtain ⟨k, hk⟩ := List.mem_iff_getElem?.mp (mem_roles h)
  have hnumber : ((roles n).map (number n))[k]? = some (number n r) := by
    rw [List.getElem?_map, hk, Option.map_some]
  have hlt : k < 6 * n + 4 := by
    have hlength := (List.getElem?_eq_some_iff.mp hk).1
    rwa [length_roles] at hlength
  rw [map_number_roles, List.getElem?_range hlt] at hnumber
  rw [← Option.some.inj hnumber, hk]

end Tube

/-! ## Vertices -/

/-- The vertex of the upright tube that has a role, if there is one. -/
def Frustum.part (f : Frustum) (n : Nat) : Tube.Role → Option Vertex
  | .side .upper column => (f.sideRing n 0)[column]?
  | .side .lower column => (f.sideRing n 1)[column]?
  | .centre .upper slice => (f.capCentre n 1)[slice]?
  | .rim .upper column => (f.capRim n f.top 1)[column]?
  | .centre .lower slice => (f.capCentre n (-1))[slice]?
  | .rim .lower column => (f.capRim n f.bottom (-1))[column]?

theorem map_getElem?_range {α : Type} {xs : List α} {m : Nat} (h : xs.length = m) :
    (List.range m).map (xs[·]?) = xs.map some := by
  apply List.ext_getElem?
  intro i
  rw [List.getElem?_map, List.getElem?_map]
  by_cases hi : i < m
  · rw [List.getElem?_range hi, Option.map_some, List.getElem?_eq_getElem (h ▸ hi), Option.map_some]
  · rw [List.getElem?_eq_none (by simpa using hi), List.getElem?_eq_none (by omega)]
    rfl

/-- The vertices of a tube have their roles, in order. -/
theorem Frustum.map_part_roles (f : Frustum) (n : Nat) :
    (Tube.roles n).map (f.part n) = (f.vertices n).map some := by
  simp only [Tube.roles, vertices, List.map_append, List.map_map, Function.comp_def, part,
    ← map_getElem?_range (f.length_sideRing n _), ← map_getElem?_range (f.length_capCentre n _),
    ← map_getElem?_range (f.length_capRim n _ _)]

/-! ## The buffer -/

namespace Tube

/-- The two faces of one side. -/
def sideFaces (i : Nat) : List (Face Role) :=
  [⟨.side .upper i, .side .lower i, .side .upper (i + 1)⟩,
    ⟨.side .lower i, .side .lower (i + 1), .side .upper (i + 1)⟩]

/-- The face of one side on the upper cap. -/
def upperFace (i : Nat) : Face Role := ⟨.rim .upper i, .rim .upper (i + 1), .centre .upper i⟩

/-- The face of one side on the lower cap. -/
def lowerFace (i : Nat) : Face Role := ⟨.rim .lower (i + 1), .rim .lower i, .centre .lower i⟩

/-- The faces of a tube with `n` sides. -/
def faces (n : Nat) : List (Face Role) :=
  (List.range n).flatMap sideFaces ++ (List.range n).map upperFace
    ++ (List.range n).map lowerFace

/-- The corners of the triangles of a tube are the numbers of its roles. -/
theorem corners_triangles (n : Nat) :
    (triangles n).flatMap Triangle.corners = ((faces n).flatMap Face.points).map (number n) := by
  simp only [triangles, faces, List.flatMap_append, List.map_append, List.flatMap_assoc,
    List.flatMap_map, List.map_flatMap]
  rfl

theorem mem_faces {n : Nat} {f : Face Role} :
    f ∈ faces n ↔ ∃ i < n, f ∈ sideFaces i ∨ f = upperFace i ∨ f = lowerFace i := by
  simp only [faces, List.mem_append, List.mem_flatMap, List.mem_map, List.mem_range]
  constructor
  · rintro ((⟨i, hi, hf⟩ | ⟨i, hi, rfl⟩) | ⟨i, hi, rfl⟩)
    · exact ⟨i, hi, .inl hf⟩
    · exact ⟨i, hi, .inr (.inl rfl)⟩
    · exact ⟨i, hi, .inr (.inr rfl)⟩
  · rintro ⟨i, hi, hf | rfl | rfl⟩
    · exact .inl (.inl ⟨i, hi, hf⟩)
    · exact .inl (.inr ⟨i, hi, rfl⟩)
    · exact .inr ⟨i, hi, rfl⟩

theorem within_of_mem_faces {n : Nat} {f : Face Role} (h : f ∈ faces n) :
    ∀ r ∈ f.points, r.Within n := by
  obtain ⟨i, hi, hside | rfl | rfl⟩ := mem_faces.mp h
  · simp only [sideFaces, List.mem_cons, List.not_mem_nil, or_false] at hside
    rcases hside with rfl | rfl
    · simp [Face.points, Role.Within]
      omega
    · simp [Face.points, Role.Within]
      omega
  · simp [upperFace, Face.points, Role.Within]
    omega
  · simp [lowerFace, Face.points, Role.Within]
    omega

/-- The role of the vertex that an index names, in a tube whose vertices begin at a
place in the mesh. -/
def roleAt (n base : Nat) (index : UInt32) : Option Role :=
  if base ≤ index.toNat then (roles n)[index.toNat - base]? else none

/-- An index behind the vertices of a mesh does not wrap while all vertices can be
numbered. -/
theorem roleAt_number {n base : Nat} (hroom : base + (6 * n + 4) ≤ 2 ^ 32) {r : Role}
    (h : r.Within n) :
    roleAt n base (UInt32.ofNat base + UInt32.ofNat (number n r)) = some r := by
  have hlt := number_lt h
  have hindex : (UInt32.ofNat base + UInt32.ofNat (number n r)).toNat = base + number n r := by
    rw [← UInt32.ofNat_add, UInt32.toNat_ofNat', Nat.mod_eq_of_lt (by omega)]
  rw [roleAt, hindex, if_pos (Nat.le_add_right ..), Nat.add_sub_cancel_left, getElem?_roles h]

end Tube

namespace Buffers

variable (out : Buffers) (s : Segment) (n : Nat)

/-- Behind the vertices of a mesh come those of the tube, in the order of their
roles. -/
theorem positions_append_tube :
    ((out ++ s.tube n).positions.toList.drop out.vertexCount).map some =
      (Tube.roles n).map fun r =>
        (s.frustum.part n r).map fun v =>
          (v.place (Quat.arcTo s.direction) s.middle).position := by
  have hroles := congrArg
    (List.map (Option.map fun v : Vertex =>
      (v.place (Quat.arcTo s.direction) s.middle).position)) (s.frustum.map_part_roles n)
  rw [List.map_map, List.map_map] at hroles
  rw [positions_append, Array.toList_append, vertexCount, ← Array.length_toList,
    List.drop_left, Segment.tube, ofSurface, List.map_map, List.map_map]
  exact hroles.symm

/-- Behind the triangles of a mesh come those of the tube. -/
theorem roles_append_tube (hroom : out.vertexCount + (6 * n + 4) ≤ 2 ^ 32) :
    ((out ++ s.tube n).indices.toList.drop out.indices.size).map
        (Tube.roleAt n out.vertexCount) =
      ((Tube.faces n).flatMap Face.points).map some := by
  rw [indices_append, Array.toList_append, ← Array.length_toList, List.drop_left, Array.toList_map,
    Segment.tube, ofSurface, List.toList_toArray, Tube.corners_triangles, List.map_map,
    List.map_map, List.map_map]
  refine List.map_congr_left fun r hr => ?_
  obtain ⟨f, hf, hr⟩ := List.mem_flatMap.mp hr
  exact Tube.roleAt_number hroom (Tube.within_of_mem_faces hf r hr)

end Buffers

end Arbor
