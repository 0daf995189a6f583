import Arbor.Mesh.Tree
import Arbor.Proofs.Rolls
import Arbor.Proofs.Tips

/-!
# Leaves

Every tip has its leaf, and every leaf its roll.

*Tips.*  The flags of a skeleton mark the segments that are somebody's parent, whatever
its links are, so the tips are the others, in order (`Skeleton.terminals_eq_childless`).
All of them are segments (`Skeleton.getElem?_tips`), and the shortest ones are no
exception.

*Rolls.*  The leaf at a tip takes the roll that has its number
(`MeshStyle.getElem?_leaves`), and the random source is then where so many draws lead
(`MeshStyle.value_assemble`).

*Many trees.*  So of trees made from one random source the later ones depend on how many
leaves the earlier ones have, and on nothing else of them
(`MeshStyle.drop_assembleAll`).
-/

namespace Arbor

/-! ## Tips -/

namespace Skeleton

/-- The segments that are nobody's parent, in order. -/
def childless (s : Skeleton) : List Nat :=
  (List.range s.segments.size).filter fun i =>
    ∀ segment ∈ s.segments.toList, segment.parent ≠ some i

theorem terminals_eq_childless (s : Skeleton) : s.terminals = s.childless := by
  refine List.filter_congr fun i hi => ?_
  have hlt := List.mem_range.mp hi
  rw [hasChild, ← Array.foldl_toList, getElem?_foldl_flagParent]
  by_cases h : ∃ segment ∈ s.segments.toList, segment.parent = some i
  · rw [if_pos h]
    simpa [hlt] using h
  · rw [if_neg h]
    simpa [hlt] using h

theorem getElem?_filterMap_of_isSome {α β : Type} {f : α → Option β} {xs : List α}
    (h : ∀ x ∈ xs, (f x).isSome) (k : Nat) : (xs.filterMap f)[k]? = xs[k]?.bind f := by
  induction xs generalizing k with
  | nil => rfl
  | cons x xs ih =>
    have hrest := ih fun y hy => h y (List.mem_cons_of_mem _ hy)
    obtain ⟨b, hb⟩ := Option.isSome_iff_exists.mp (h x List.mem_cons_self)
    rw [List.filterMap_cons_some hb]
    cases k with
    | zero => exact hb.symm
    | succ k => exact hrest k

theorem isSome_of_mem_terminals {s : Skeleton} {i : Nat} (h : i ∈ s.terminals) :
    (s.segments[i]?).isSome := by
  have hlt := List.mem_range.mp (List.mem_filter.mp h).1
  rw [Array.getElem?_eq_getElem hlt, Option.isSome_some]

/-- The tips are the segments at the terminal positions. -/
theorem getElem?_tips (s : Skeleton) (k : Nat) :
    s.tips[k]? = s.childless[k]?.bind (s.segments[·]?) := by
  rw [tips, getElem?_filterMap_of_isSome (fun _ => isSome_of_mem_terminals), terminals_eq_childless]

/-- Every tip of the skeleton counts. -/
theorem length_childless (s : Skeleton) : s.childless.length = s.leafCount := by
  rw [← terminals_eq_childless, leafCount]

theorem exists_tip {s : Skeleton} {k i : Nat} (h : s.childless[k]? = some i) :
    ∃ segment, s.segments[i]? = some segment ∧ s.tips[k]? = some segment := by
  have hlt := List.mem_range.mp (List.mem_filter.mp (List.mem_of_getElem? h)).1
  refine ⟨s.segments[i], Array.getElem?_eq_getElem hlt, ?_⟩
  rw [getElem?_tips, h, Option.bind_some, Array.getElem?_eq_getElem hlt]

theorem length_tips (s : Skeleton) : s.tips.length = s.leafCount := by
  have hall : ∀ i ∈ s.terminals, (s.segments[i]?).isSome := fun _ => isSome_of_mem_terminals
  rw [tips, List.length_filterMap_eq_countP, List.countP_eq_length.mpr hall, leafCount]

end Skeleton

/-! ## Rolls -/

namespace MeshStyle

variable {σ : Type} [RandomSource σ]

/-- The leaves take as many rolls as there are, and nothing else takes any. -/
theorem value_assemble (style : MeshStyle) (s : Skeleton) (rng : σ) :
    (style.assemble s rng).value =
      (⟨style.branches s.segments.toList,
          style.foliage s.tips (RandomSource.rolls s.leafCount rng).1⟩,
        RandomSource.skip s.leafCount rng) := by
  rw [← RandomSource.rolls_snd]
  rfl

theorem getElem?_leaves (style : MeshStyle) {tips : List Segment} {rolls : List Float32} {k : Nat}
    {segment : Segment} {roll : Float32} (hsegment : tips[k]? = some segment)
    (hroll : rolls[k]? = some roll) :
    (style.foliage tips rolls).leaves[k]? = some (style.leaf segment roll) := by
  show (List.zipWith style.leaf tips rolls).toArray[k]? = _
  rw [List.getElem?_toArray, List.getElem?_zipWith, hsegment, hroll]

theorem size_leaves (style : MeshStyle) (s : Skeleton) (rng : σ) :
    (style.foliage s.tips (RandomSource.rolls s.leafCount rng).1).leaves.size = s.leafCount := by
  show (List.zipWith style.leaf s.tips _).toArray.size = _
  rw [List.size_toArray, List.length_zipWith, s.length_tips, RandomSource.length_rolls,
    Nat.min_self]

/-- There is a rectangle if there is a leaf to draw with it. -/
theorem quad_foliage (style : MeshStyle) (tips : List Segment) (rolls : List Float32) :
    (style.foliage tips rolls).quad =
      if (style.foliage tips rolls).isEmpty then .empty
      else .quad style.leafWidth style.leafHeight := by
  rw [foliage, Foliage.isEmpty, List.isEmpty_toArray]

theorem isEmpty_quad_foliage (style : MeshStyle) (tips : List Segment) (rolls : List Float32) :
    (style.foliage tips rolls).quad.isEmpty = (style.foliage tips rolls).isEmpty := by
  rw [quad_foliage]
  cases (style.foliage tips rolls).isEmpty <;> rfl

/-! ## Many trees -/

/-- The meshes of some skeletons that share one random source, and the source after
them. -/
def assembleAll : List (MeshStyle × Skeleton) → σ → List TreeMesh × σ
  | [], rng => ([], rng)
  | (style, s) :: builds, rng =>
    let (mesh, rng) := (style.assemble s rng).value
    let (meshes, rng) := assembleAll builds rng
    (mesh :: meshes, rng)

/-- How many leaves some skeletons have together. -/
def leavesOf (builds : List (MeshStyle × Skeleton)) : Nat :=
  (builds.map fun build => build.2.leafCount).sum

theorem leavesOf_cons (build : MeshStyle × Skeleton) (builds : List (MeshStyle × Skeleton)) :
    leavesOf (build :: builds) = build.2.leafCount + leavesOf builds := List.sum_cons

theorem assembleAll_cons (style : MeshStyle) (s : Skeleton) (builds : List (MeshStyle × Skeleton))
    (rng : σ) :
    assembleAll ((style, s) :: builds) rng =
      ((style.assemble s rng).value.1 ::
          (assembleAll builds (RandomSource.skip s.leafCount rng)).1,
        (assembleAll builds (RandomSource.skip s.leafCount rng)).2) := by
  rw [assembleAll, value_assemble]

theorem length_assembleAll (builds : List (MeshStyle × Skeleton)) (rng : σ) :
    (assembleAll builds rng).1.length = builds.length := by
  induction builds generalizing rng with
  | nil => rfl
  | cons build builds ih => rw [assembleAll_cons, List.length_cons, List.length_cons, ih]

/-- Every leaf of every tree takes one roll. -/
theorem assembleAll_snd (builds : List (MeshStyle × Skeleton)) (rng : σ) :
    (assembleAll builds rng).2 = RandomSource.skip (leavesOf builds) rng := by
  induction builds generalizing rng with
  | nil => rfl
  | cons build builds ih =>
    rw [assembleAll_cons, ih, leavesOf_cons, RandomSource.skip_add]

theorem assembleAll_append (earlier later : List (MeshStyle × Skeleton)) (rng : σ) :
    (assembleAll (earlier ++ later) rng).1 =
      (assembleAll earlier rng).1 ++ (assembleAll later (assembleAll earlier rng).2).1 := by
  induction earlier generalizing rng with
  | nil => rfl
  | cons build earlier ih =>
    rw [List.cons_append, assembleAll_cons, assembleAll_cons, ih]
    rfl

/-- Behind the earlier trees come those that are made from the random source there. -/
theorem drop_assembleAll (earlier later : List (MeshStyle × Skeleton)) (rng : σ) :
    (assembleAll (earlier ++ later) rng).1.drop earlier.length =
      (assembleAll later (RandomSource.skip (leavesOf earlier) rng)).1 := by
  rw [assembleAll_append, assembleAll_snd, List.drop_left' (length_assembleAll earlier rng)]

end MeshStyle

/-- The leaves of a tree are at its tips, in order and one at each, whether or not the
segment there is long enough to draw.  Tips are the segments that are nobody's parent,
wherever links lead.  Each leaf has a roll of its own, drawn after those of the leaves
before it, and nothing else is drawn.  There is a rectangle if and only if there is a
leaf.  So of trees that share one random source the later ones depend on the number of
leaves of the earlier ones, and on nothing else of them. -/
theorem leaves_match_tips (σ : Type) [RandomSource σ] :
    (∀ (style : MeshStyle) (s : Skeleton) (rng : σ),
      let mesh := (style.assemble s rng).value.1
      let after := (style.assemble s rng).value.2
      mesh.foliage.leaves.size = s.leafCount ∧
        s.childless.length = s.leafCount ∧
        (∃ rolls : List Float32, rolls.length = s.leafCount ∧
          RandomSource.Draws rng rolls after ∧
          ∀ k i : Nat, s.childless[k]? = some i →
            ∃ segment roll, s.segments[i]? = some segment ∧ rolls[k]? = some roll ∧
              mesh.foliage.leaves[k]? = some (style.leaf segment roll)) ∧
        mesh.foliage.quad = (if mesh.foliage.isEmpty then .empty
          else .quad style.leafWidth style.leafHeight) ∧
        mesh.foliage.quad.isEmpty = mesh.foliage.isEmpty) ∧
    ∀ (earlier others later : List (MeshStyle × Skeleton)) (rng : σ),
      MeshStyle.leavesOf earlier = MeshStyle.leavesOf others →
        (MeshStyle.assembleAll (earlier ++ later) rng).1.drop earlier.length =
          (MeshStyle.assembleAll (others ++ later) rng).1.drop others.length := by
  constructor
  · intro style s rng mesh after
    have hvalue := style.value_assemble s rng
    have hmesh : mesh = _ := congrArg Prod.fst hvalue
    have hafter : after = _ := congrArg Prod.snd hvalue
    refine ⟨hmesh ▸ style.size_leaves s rng, s.length_childless, ?_,
      hmesh ▸ style.quad_foliage _ _, hmesh ▸ style.isEmpty_quad_foliage _ _⟩
    have hlength := RandomSource.length_rolls s.leafCount rng
    refine ⟨_, hlength, RandomSource.draws_iff.mpr (by rw [hlength]; exact ⟨rfl, hafter⟩), ?_⟩
    intro k i hk
    have hlt := (List.getElem?_eq_some_iff.mp hk).1
    rw [s.length_childless] at hlt
    obtain ⟨segment, hsegment, htip⟩ := Skeleton.exists_tip hk
    have hroll := RandomSource.getElem?_rolls hlt rng
    refine ⟨segment, _, hsegment, hroll, ?_⟩
    rw [hmesh]
    exact style.getElem?_leaves htip hroll
  · intro earlier others later rng hsame
    rw [MeshStyle.drop_assembleAll, MeshStyle.drop_assembleAll, hsame]

/-- Two segments that grow out of each other, one that grows out of none there is, and a
point. -/
def Skeleton.tangled : Skeleton where
  segments := #[⟨⟨0, 0, 0⟩, ⟨0, 1, 0⟩, 0.2, 0.1, some 1⟩, ⟨⟨0, 1, 0⟩, ⟨0, 2, 0⟩, 0.1, 0.1, some 0⟩,
    ⟨⟨0, 1, 0⟩, ⟨1, 1, 0⟩, 0.1, 0, some 9⟩, ⟨⟨3, 0, 0⟩, ⟨3, 0, 0⟩, 0.1, 0, none⟩]
  strays := 0
  unclosed := 0

/-- The point has the second leaf.  After it, and after two points with one leaf each, the
random source is at the same place. -/
theorem leaves_match_tips_tangled :
    let point : Skeleton := ⟨#[⟨⟨3, 0, 0⟩, ⟨3, 0, 0⟩, 0.1, 0, none⟩], 0, 0⟩
    let earlier := [(MeshStyle.octagonal, Skeleton.tangled)]
    let others := [(MeshStyle.octagonal, point), (MeshStyle.octagonal, point)]
    Skeleton.tangled.childless[1]? = some 3 ∧
      (∃ roll, (MeshStyle.octagonal.assemble .tangled (Rng.ofSeed 7)).value.1.foliage.leaves[1]? =
        some (MeshStyle.octagonal.leaf ⟨⟨3, 0, 0⟩, ⟨3, 0, 0⟩, 0.1, 0, none⟩ roll)) ∧
      MeshStyle.leavesOf earlier = MeshStyle.leavesOf others ∧
      (MeshStyle.assembleAll (earlier ++ earlier) (Rng.ofSeed 7)).1.drop 1 =
        (MeshStyle.assembleAll (others ++ earlier) (Rng.ofSeed 7)).1.drop 2 := by
  intro point earlier others
  have hlast : Skeleton.tangled.childless[1]? = some 3 := by decide
  have hsame : MeshStyle.leavesOf earlier = MeshStyle.leavesOf others := by decide
  obtain ⟨hone, hmany⟩ := leaves_match_tips Rng
  obtain ⟨-, -, ⟨rolls, -, -, hleaves⟩, -⟩ := hone .octagonal .tangled (.ofSeed 7)
  obtain ⟨segment, roll, hsegment, -, hleaf⟩ := hleaves 1 3 hlast
  cases hsegment
  exact ⟨hlast, ⟨roll, hleaf⟩, hsame, hmany earlier others earlier (.ofSeed 7) hsame⟩

end Arbor
