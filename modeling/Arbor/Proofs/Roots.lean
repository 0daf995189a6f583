import Mathlib.Data.List.Perm.Subperm
import Arbor.Skeleton.Statistics
import Arbor.Proofs.Footing
import Arbor.Proofs.Leaves
import Arbor.Proofs.Nested
import Arbor.Proofs.Planting

/-!
# Roots and tips

Where a tree begins and where it ends is said by its links and by nothing else.

*Links.*  The roots of a skeleton are the segments without a parent
(`Skeleton.rootCount_eq`), and its tips are those that no link leads to
(`Skeleton.terminals_eq`).

*Counting.*  Every segment that is not a tip has a child, and no two of them share one.
Children are not roots, so there are at least as many tips as roots, wherever the links
lead (`Skeleton.rootCount_le_leafCount`).

*Drawn trees.*  Links that run in a circle leave neither root nor tip.  In a tree that
was drawn they lead to earlier segments, so the first segment is a root
(`Shape.rootCount_eq_zero_iff`).

*Meshes.*  So a text that draws a segment grows a leaf, also if the segment is too short to
be seen, and `isEmpty_plant_iff` says of which blueprints the mesh is empty.
-/

namespace Arbor

namespace Skeleton

/-! ## Links -/

/-- The parents of the segments, in drawing order. -/
def parents (s : Skeleton) : List (Option Nat) := s.segments.toList.map Segment.parent

@[simp] theorem length_parents (s : Skeleton) : s.parents.length = s.segments.size := by
  rw [parents, List.length_map, Array.length_toList]

theorem parentOf_eq_join (s : Skeleton) (i : Nat) : s.parentOf i = s.parents[i]?.join := by
  rw [parentOf, parents, List.getElem?_map, Array.getElem?_toList]
  cases s.segments[i]? <;> rfl

/-- The roots are the segments without a parent. -/
theorem rootCount_eq (s : Skeleton) : s.rootCount = s.parents.count none := by
  rw [rootCount, parents, List.count, List.countP_map]
  refine List.countP_congr fun segment _ => ?_
  simp

/-- The tips are the segments that no link leads to. -/
theorem terminals_eq (s : Skeleton) :
    s.terminals = (List.range s.parents.length).filter fun i => some i ∉ s.parents := by
  rw [terminals_eq_childless, childless, length_parents]
  refine List.filter_congr fun i _ => ?_
  simp [parents]

/-! ## Counting -/

/-- The segments that a link leads to, in order. -/
def forks (s : Skeleton) : List Nat :=
  (List.range s.parents.length).filter fun i => some i ∈ s.parents

/-- A segment is a tip, or a link leads to it. -/
theorem leafCount_add_length_forks (s : Skeleton) :
    s.leafCount + s.forks.length = s.parents.length := by
  have hsplit := List.length_eq_length_filter_add (l := List.range s.parents.length)
    fun i => decide (some i ∉ s.parents)
  simp only [decide_not, Bool.not_not, List.length_range] at hsplit
  rw [leafCount, terminals_eq, forks]
  simpa using hsplit.symm

/-- A segment is a root, or it has a link. -/
theorem rootCount_add_length_links (s : Skeleton) :
    s.rootCount + (s.parents.filter Option.isSome).length = s.parents.length := by
  have hsplit := List.length_eq_countP_add_countP Option.isSome (l := s.parents)
  have hroots : s.parents.count none = s.parents.countP fun link => ¬ link.isSome := by
    refine List.countP_congr fun link _ => ?_
    simp
  rw [rootCount_eq, hroots, ← List.countP_eq_length_filter, hsplit, Nat.add_comm]

/-- Every segment that a link leads to takes a link of its own. -/
theorem length_forks_le (s : Skeleton) :
    s.forks.length ≤ (s.parents.filter Option.isSome).length := by
  have hnodup : (s.forks.map some).Nodup :=
    (List.nodup_range.filter _).map (Option.some_injective Nat)
  have hsubset : s.forks.map some ⊆ s.parents.filter Option.isSome := by
    intro link hlink
    obtain ⟨i, hi, rfl⟩ := List.mem_map.mp hlink
    exact List.mem_filter.mpr ⟨of_decide_eq_true (List.mem_filter.mp hi).2, rfl⟩
  have hle := (List.subperm_of_subset hnodup hsubset).length_le
  rwa [List.length_map] at hle

/-- There are at least as many tips as roots, wherever the links lead. -/
theorem rootCount_le_leafCount (s : Skeleton) : s.rootCount ≤ s.leafCount := by
  have hforks := s.leafCount_add_length_forks
  have hlinks := s.rootCount_add_length_links
  have hle := s.length_forks_le
  omega

end Skeleton

/-! ## Drawn trees -/

namespace Shape

/-- The first segment that is drawn is a root. -/
theorem parents_zero {shape : Shape} {cs : List Command}
    (h : 0 < (shape.skeleton cs).segments.size) :
    (shape.skeleton cs).parents[0]? = some none := by
  rw [← Skeleton.length_parents] at h
  have hzero := (shape.skeleton cs).parentOf_eq_join 0
  rw [List.getElem?_eq_getElem h] at hzero ⊢
  cases hlink : (shape.skeleton cs).parents[0] with
  | none => rfl
  | some p =>
    rw [hlink] at hzero
    exact absurd (exists_strokes_of_parentOf hzero).1 (Nat.not_lt_zero p)

/-- Only nothing has no root. -/
theorem rootCount_eq_zero_iff (shape : Shape) (cs : List Command) :
    (shape.skeleton cs).rootCount = 0 ↔ (shape.skeleton cs).segments.size = 0 := by
  constructor
  · intro hroots
    rw [Skeleton.rootCount_eq, List.count_eq_zero] at hroots
    rcases Nat.eq_zero_or_pos (shape.skeleton cs).segments.size with hsize | hpos
    · exact hsize
    · exact absurd (List.mem_of_getElem? (parents_zero hpos)) hroots
  · intro hsize
    have hlinks := (shape.skeleton cs).rootCount_add_length_links
    rw [Skeleton.length_parents] at hlinks
    omega

/-- Only nothing has no tip. -/
theorem leafCount_eq_zero_iff (shape : Shape) (cs : List Command) :
    (shape.skeleton cs).leafCount = 0 ↔ (shape.skeleton cs).segments.size = 0 := by
  constructor
  · intro hleaves
    have hle := (shape.skeleton cs).rootCount_le_leafCount
    rw [← shape.rootCount_eq_zero_iff]
    omega
  · intro hsize
    have hforks := (shape.skeleton cs).leafCount_add_length_forks
    rw [Skeleton.length_parents] at hforks
    omega

end Shape

/-! ## Meshes -/

namespace MeshStyle

variable {σ : Type} [RandomSource σ]

/-- There are no leaves if there is no tip. -/
theorem isEmpty_foliage_iff (style : MeshStyle) (s : Skeleton) (rng : σ) :
    (style.assemble s rng).value.1.foliage.isEmpty = true ↔ s.leafCount = 0 := by
  rw [value_assemble, Foliage.isEmpty, Array.isEmpty_iff_size_eq_zero, size_leaves]

/-- Nothing has no branches. -/
theorem isEmpty_branches (style : MeshStyle) {s : Skeleton} (h : s.segments.size = 0) (rng : σ) :
    (style.assemble s rng).value.1.branches.isEmpty = true := by
  rw [value_assemble, Array.size_eq_zero_iff.mp h]
  rfl

/-- A tree that was drawn has leaves if it has anything. -/
theorem isEmpty_assemble (style : MeshStyle) (shape : Shape) (cs : List Command) (rng : σ) :
    (style.assemble (shape.skeleton cs) rng).value.1.isEmpty =
      (style.assemble (shape.skeleton cs) rng).value.1.foliage.isEmpty := by
  rw [TreeMesh.isEmpty, Bool.and_eq_right_iff_imp, isEmpty_foliage_iff, shape.leafCount_eq_zero_iff]
  exact fun h => style.isEmpty_branches h rng

/-- Its mesh is empty if no command draws. -/
theorem isEmpty_assemble_iff (style : MeshStyle) (shape : Shape) (text : String) (rng : σ) :
    (style.assemble (shape.interpret text).value rng).value.1.isEmpty = true ↔
      ∀ c ∈ text.toList, c.isUpper = false := by
  rw [Shape.value_interpret, isEmpty_assemble, isEmpty_foliage_iff, shape.leafCount_eq_zero_iff,
    shape.size_segments, Command.count_draw_ofText, List.countP_eq_zero]
  simp

end MeshStyle

theorem Blueprint.value_build {σ : Type} [RandomSource σ] (b : Blueprint) (style : MeshStyle)
    (rng : σ) : (b.build style rng).value =
      (style.assemble (b.shape.interpret b.grammar.expand.value).value rng).value := by
  rw [build, Logged.value_bind, Logged.value_bind]

/-- A tree that was drawn has at least as many tips as roots, and it has some of both
unless nothing was drawn.  So the mesh of a blueprint that is accepted is empty if and only
if the command string has no capital.  It has leaves otherwise, however short its segments
are. -/
theorem isEmpty_plant_iff (σ : Type) [RandomSource σ] :
    (∀ (shape : Shape) (text : String),
      let drawn := (shape.interpret text).value
      drawn.rootCount ≤ drawn.leafCount ∧
        (drawn.rootCount = 0 ↔ drawn.segments = #[]) ∧
        (drawn.leafCount = 0 ↔ drawn.segments = #[])) ∧
    ∀ (b : Blueprint) (style : MeshStyle) (rng : σ), b.check = .ok () → style.check = .ok () →
      ∃ mesh, (b.plant style rng).value.1 = .ok mesh ∧
        (mesh.isEmpty = true ↔ ∀ c ∈ b.grammar.expand.value.toList, c.isUpper = false) ∧
        mesh.foliage.isEmpty = mesh.isEmpty := by
  constructor
  · intro shape text drawn
    rw [← Array.size_eq_zero_iff]
    exact ⟨drawn.rootCount_le_leafCount, shape.rootCount_eq_zero_iff _,
      shape.leafCount_eq_zero_iff _⟩
  · intro b style rng hshape hstyle
    refine ⟨(b.build style rng).value.1, ?_, ?_, ?_⟩
    · rw [Blueprint.plant_of_accepted hstyle, Blueprint.value_grow_of_accepted hshape]
    · rw [Blueprint.value_build]
      exact style.isEmpty_assemble_iff b.shape b.grammar.expand.value rng
    · rw [Blueprint.value_build]
      rw [Shape.value_interpret, style.isEmpty_assemble]

/-- The twig is too short for this style, and its mesh is not empty. -/
theorem isEmpty_plant_iff_twig :
    let style : MeshStyle := { MeshStyle.octagonal with minLength := 1 }
    Blueprint.twig.check = .ok () ∧ style.check = .ok () ∧
      (style.branches (Blueprint.twig.shape.interpret "F").value.segments.toList).isEmpty = true ∧
      ∃ mesh, (Blueprint.twig.plant style (Rng.ofSeed 7)).value.1 = .ok mesh ∧
        mesh.isEmpty = false := by
  intro style
  have hshape : Blueprint.twig.check = .ok () := by decide
  have hstyle : style.check = .ok () := by decide
  obtain ⟨mesh, hmesh, hempty, -⟩ :=
    (isEmpty_plant_iff Rng).2 Blueprint.twig style (.ofSeed 7) hshape hstyle
  refine ⟨hshape, hstyle, by decide +kernel, mesh, hmesh, ?_⟩
  rw [Bool.eq_false_iff, Ne, hempty]
  intro hnone
  exact absurd (hnone 'F' (by decide)) (by decide)

end Arbor
