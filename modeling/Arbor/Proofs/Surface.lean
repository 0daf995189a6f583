import Mathlib.Algebra.BigOperators.Group.Finset.Basic
import Mathlib.Data.Finset.Card
import Mathlib.Data.Sym.Sym2

/-!
# Closed surfaces

A surface is put together from triangles.  Each one has an order in which its points
go around it, so it runs along each of its sides in one direction.

It is closed and consistently oriented if wherever a triangle runs along a side, it is
the only one to do so in that direction, and exactly one runs the other way
(`IsClosedSurface`).

*The face at an edge.*  To see that only one triangle runs along an edge, it is enough
to tell from the edge which one that is (`IsClosedSurface.of_faceAt`).

*Sides.*  Every side of a closed surface belongs to two triangles, so there are three
sides to two triangles (`IsClosedSurface.card_sidesOf`).
-/

namespace Arbor

/-- A triangle by its points, in the order in which they go around it. -/
structure Face (P : Type) where
  /-- The first point. -/
  a : P
  /-- The second point. -/
  b : P
  /-- The third point. -/
  c : P
  deriving DecidableEq, Repr

variable {P : Type}

namespace Face

/-- The points of a face in order. -/
def points (f : Face P) : List P := [f.a, f.b, f.c]

/-- The edges along which a face runs, each one in its direction. -/
def edges (f : Face P) : List (P × P) := [(f.a, f.b), (f.b, f.c), (f.c, f.a)]

/-- The face between the points that stand for its points. -/
def map {Q : Type} (g : P → Q) (f : Face P) : Face Q := ⟨g f.a, g f.b, g f.c⟩

theorem mem_points {f : Face P} {p : P} : p ∈ f.points ↔ p = f.a ∨ p = f.b ∨ p = f.c := by
  simp only [points, List.mem_cons, List.not_mem_nil, or_false]

theorem mem_edges {f : Face P} {e : P × P} :
    e ∈ f.edges ↔ e = (f.a, f.b) ∨ e = (f.b, f.c) ∨ e = (f.c, f.a) := by
  simp only [edges, List.mem_cons, List.not_mem_nil, or_false]

/-- Each edge of a face starts at another one of its points. -/
theorem map_fst_edges (f : Face P) : f.edges.map Prod.fst = f.points := rfl

theorem nodup_edges {f : Face P} (h : f.points.Nodup) : f.edges.Nodup :=
  List.Nodup.of_map Prod.fst (f.map_fst_edges ▸ h)

theorem ne_of_mem_edges {f : Face P} (h : f.points.Nodup) {e : P × P} (he : e ∈ f.edges) :
    e.1 ≠ e.2 := by
  simp only [points, List.nodup_cons, List.mem_cons, List.not_mem_nil, or_false, not_or] at h
  obtain ⟨⟨hab, hac⟩, hbc, -⟩ := h
  rcases mem_edges.mp he with rfl | rfl | rfl
  · exact hab
  · exact hbc
  · exact Ne.symm hac

end Face

/-- The edges of some faces, each one in its direction. -/
def edgesOf (faces : List (Face P)) : List (P × P) := faces.flatMap Face.edges

theorem mem_edgesOf {faces : List (Face P)} {e : P × P} :
    e ∈ edgesOf faces ↔ ∃ f ∈ faces, e ∈ f.edges := List.mem_flatMap

theorem length_edgesOf (faces : List (Face P)) : (edgesOf faces).length = 3 * faces.length := by
  induction faces with
  | nil => rfl
  | cons f faces ih =>
    have hedges : f.edges.length = 3 := rfl
    rw [edgesOf, List.flatMap_cons, List.length_append, ← edgesOf, ih, hedges, List.length_cons]
    omega

variable [DecidableEq P]

/-- The points of some faces. -/
def pointsOf (faces : List (Face P)) : Finset P := (faces.flatMap Face.points).toFinset

/-- The edges of some faces, without their directions. -/
def sidesOf (faces : List (Face P)) : Finset (Sym2 P) :=
  (edgesOf faces).toFinset.image fun e => s(e.1, e.2)

/-- Every face has three different points, and every edge that a face runs along is
run along by one face in its own direction and by one in the other. -/
structure IsClosedSurface (faces : List (Face P)) : Prop where
  /-- No face is a line or a point. -/
  points_nodup : ∀ f ∈ faces, f.points.Nodup
  /-- One face runs along an edge. -/
  once : ∀ e ∈ edgesOf faces, faces.countP (e ∈ ·.edges) = 1
  /-- One face runs back along it. -/
  back : ∀ e ∈ edgesOf faces, faces.countP (e.swap ∈ ·.edges) = 1

variable {faces : List (Face P)}

/-! ## The face at an edge -/

theorem countP_edges_eq_one {faceAt : P × P → Option (Face P)} (hnodup : faces.Nodup)
    (hfaceAt : ∀ f ∈ faces, ∀ e ∈ f.edges, faceAt e = some f) {e : P × P}
    (he : e ∈ edgesOf faces) : faces.countP (e ∈ ·.edges) = 1 := by
  obtain ⟨f, hf, hef⟩ := mem_edgesOf.mp he
  have honly : ∀ g ∈ faces, decide (e ∈ g.edges) = true ↔ (g == f) = true := by
    intro g hg
    rw [decide_eq_true_eq, beq_iff_eq]
    constructor
    · intro heg
      exact Option.some.inj ((hfaceAt g hg e heg).symm.trans (hfaceAt f hf e hef))
    · rintro rfl
      exact hef
  rw [List.countP_congr honly, ← List.count_eq_countP]
  exact List.count_eq_one_of_mem hnodup hf

/-- A surface is closed if the face at an edge can be told from the edge, and a face
runs back along each of them. -/
theorem IsClosedSurface.of_faceAt (faceAt : P × P → Option (Face P)) (hnodup : faces.Nodup)
    (hpoints : ∀ f ∈ faces, f.points.Nodup)
    (hfaceAt : ∀ f ∈ faces, ∀ e ∈ f.edges, faceAt e = some f)
    (hback : ∀ f ∈ faces, ∀ e ∈ f.edges, e.swap ∈ edgesOf faces) : IsClosedSurface faces where
  points_nodup := hpoints
  once _ he := countP_edges_eq_one hnodup hfaceAt he
  back e he := by
    obtain ⟨f, hf, hef⟩ := mem_edgesOf.mp he
    exact countP_edges_eq_one hnodup hfaceAt (hback f hf e hef)

/-! ## Sides -/

theorem count_edgesOf (h : ∀ f ∈ faces, f.points.Nodup) (e : P × P) :
    (edgesOf faces).count e = faces.countP (e ∈ ·.edges) := by
  induction faces with
  | nil => rfl
  | cons f faces ih =>
    have hf := Face.nodup_edges (h f List.mem_cons_self)
    have ih := ih fun g hg => h g (List.mem_cons_of_mem _ hg)
    rw [edgesOf, List.flatMap_cons, List.count_append, ← edgesOf, ih, hf.count,
      List.countP_cons, Nat.add_comm]
    simp only [decide_eq_true_eq]

/-- Edges of which each one comes with its reverse make half as many sides. -/
theorem card_eq_two_mul_card_sides (edges : Finset (P × P)) (hne : ∀ e ∈ edges, e.1 ≠ e.2)
    (hback : ∀ e ∈ edges, e.swap ∈ edges) :
    edges.card = 2 * (edges.image fun e => s(e.1, e.2)).card := by
  have htwo : ∀ side ∈ edges.image (fun e => s(e.1, e.2)),
      (edges.filter fun e => s(e.1, e.2) = side).card = 2 := by
    intro side hside
    obtain ⟨e, he, rfl⟩ := Finset.mem_image.mp hside
    have hpair : (edges.filter fun d => s(d.1, d.2) = s(e.1, e.2)) = {e, e.swap} := by
      ext d
      rw [Finset.mem_filter, Sym2.mk_eq_mk_iff, Finset.mem_insert, Finset.mem_singleton]
      constructor
      · exact And.right
      · rintro (rfl | rfl)
        · exact ⟨he, .inl rfl⟩
        · exact ⟨hback e he, .inr rfl⟩
    have hswap : e ≠ e.swap := fun h => hne e he (congrArg Prod.fst h)
    rw [hpair, Finset.card_pair hswap]
  rw [Finset.card_eq_sum_card_image (fun e => s(e.1, e.2)) edges, Finset.sum_congr rfl htwo,
    Finset.sum_const, smul_eq_mul, Nat.mul_comm]

/-- In a closed surface there are three sides to two faces. -/
theorem IsClosedSurface.card_sidesOf (h : IsClosedSurface faces) :
    2 * (sidesOf faces).card = 3 * faces.length := by
  have hnodup : (edgesOf faces).Nodup := by
    refine List.nodup_iff_count_eq_one.mpr fun e he => ?_
    rw [count_edgesOf h.points_nodup]
    exact h.once e he
  have hne : ∀ e ∈ (edgesOf faces).toFinset, e.1 ≠ e.2 := by
    intro e he
    obtain ⟨f, hf, hef⟩ := mem_edgesOf.mp (List.mem_toFinset.mp he)
    exact Face.ne_of_mem_edges (h.points_nodup f hf) hef
  have hback : ∀ e ∈ (edgesOf faces).toFinset, e.swap ∈ (edgesOf faces).toFinset := by
    intro e he
    have hone := h.back e (List.mem_toFinset.mp he)
    obtain ⟨f, hf, hef⟩ := List.countP_pos_iff.mp (hone ▸ Nat.one_pos)
    exact List.mem_toFinset.mpr (mem_edgesOf.mpr ⟨f, hf, of_decide_eq_true hef⟩)
  rw [sidesOf, ← card_eq_two_mul_card_sides _ hne hback, List.toFinset_card_of_nodup hnodup,
    length_edgesOf]

end Arbor
