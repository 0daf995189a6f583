import Arbor.Proofs.Descent
import Arbor.Proofs.Overflow

/-!
# Tips

A tip of a skeleton is a segment out of which no other one grows.  With room for
all branches the taper ends at the tips of the tree that the text draws without
its moves.

*Moves make tips.*  A move takes the turtle's footing away, and the taper looks past
it as it does past turns.  So a text with moves may have more tips than without them,
and the taper goes on behind the others (`tip_at_end_iff`, `tip_before_end`).
-/

namespace Arbor

namespace Skeleton

theorem getElem?_flagParent (flags : Array Bool) (segment : Segment) (i : Nat) :
    (flagParent flags segment)[i]? =
      if segment.parent = some i then flags[i]?.map fun _ => true else flags[i]? := by
  rw [flagParent]
  cases segment.parent with
  | none => simp
  | some p =>
    by_cases hp : p = i
    · subst hp
      by_cases hlt : p < flags.size
      · simp [hlt]
      · simp [hlt]
    · simp [hp, Array.getElem?_setIfInBounds_ne hp]

theorem getElem?_foldl_flagParent (segments : List Segment) (flags : Array Bool) (i : Nat) :
    (segments.foldl flagParent flags)[i]? =
      if ∃ segment ∈ segments, segment.parent = some i then flags[i]?.map fun _ => true
      else flags[i]? := by
  induction segments generalizing flags with
  | nil => simp
  | cons segment segments ih =>
    rw [List.foldl_cons, ih, getElem?_flagParent]
    by_cases hs : segment.parent = some i
    · simp [hs]
    · simp [hs]

theorem exists_parentOf_iff {s : Skeleton} {i : Nat} :
    (∃ j, s.parentOf j = some i) ↔ ∃ segment ∈ s.segments.toList, segment.parent = some i := by
  constructor
  · rintro ⟨j, hj⟩
    obtain ⟨segment, hsegment, hp⟩ := Option.bind_eq_some_iff.mp hj
    exact ⟨segment, Array.mem_toList_iff.mpr (Array.mem_of_getElem? hsegment), hp⟩
  · rintro ⟨segment, hsegment, hp⟩
    obtain ⟨j, hj⟩ := Array.mem_iff_getElem?.mp (Array.mem_toList_iff.mp hsegment)
    exact ⟨j, Option.bind_eq_some_iff.mpr ⟨segment, hj, hp⟩⟩

/-- A tip is a segment that is nobody's parent. -/
theorem mem_terminals {s : Skeleton} {i : Nat} :
    i ∈ s.terminals ↔ i < s.segments.size ∧ ∀ j, s.parentOf j ≠ some i := by
  rw [terminals, List.mem_filter, List.mem_range]
  refine and_congr_right fun hi => ?_
  rw [hasChild, ← Array.foldl_toList, getElem?_foldl_flagParent]
  by_cases h : ∃ j, s.parentOf j = some i
  · rw [if_pos (exists_parentOf_iff.mp h)]
    simpa [hi] using h
  · rw [if_neg (mt exists_parentOf_iff.mpr h)]
    simpa [hi] using h

theorem Mirrors.mem_terminals_iff {s : Skeleton} {cs : List Command} (hs : s.Mirrors cs)
    {i a : Nat} (ha : (Taper.ofCommands cs).positions[i]? = some a) :
    i ∈ s.terminals ↔ a + 1 = (Taper.ofCommands cs).length := by
  rw [mem_terminals, Taper.at_end_iff_childless ha]
  simp only [hs.link, hs.lt_size ha, true_and]

end Skeleton

/-- With room for all branches, the tips of the tree that the text draws without
its small letters are tips of the text's own tree.  Of all tips of the text they
are those at the end of the taper, and there the last radius is reached. -/
theorem tip_at_end_iff (shape : Shape) (text : String)
    (h : Bracket.deepest (Command.ofText text) ≤ shape.stackLimit) :
    let taper := Taper.ofCommands (Command.ofText text)
    let drawn := (shape.interpret text).value
    let tree := (shape.interpret (Command.unbrokenText text)).value
    (∀ i ∈ tree.terminals, i ∈ drawn.terminals) ∧
      (∀ i ∈ drawn.terminals, ∃ a, taper.positions[i]? = some a ∧
        (a + 1 = taper.length ↔ i ∈ tree.terminals)) ∧
      ∀ i ∈ tree.terminals, 2 ≤ taper.length →
        ∃ segment, drawn.segments[i]? = some segment ∧
          segment.tipRadius = shape.baseRadius + Float32.ofNat taper.length *
            ((shape.tipRadius - shape.baseRadius) / Float32.ofNat taper.length) := by
  intro taper drawn tree
  have hs : tree.Mirrors (Command.ofText text) := by
    rw [show tree = shape.skeleton _ from Shape.value_interpret .., Command.ofText_unbrokenText]
    exact mirrors_skeleton h
  have hsize : drawn.segments.size = (Command.ofText text).count .draw :=
    Shape.size_segments shape _
  have hposition : ∀ i < drawn.segments.size, ∃ a, taper.positions[i]? = some a := by
    intro i hi
    rw [hsize] at hi
    exact Taper.exists_position hi
  have hsub : ∀ i ∈ tree.terminals, i ∈ drawn.terminals := by
    intro i hi
    obtain ⟨hi, hnone⟩ := Skeleton.mem_terminals.mp hi
    rw [hs.size, ← hsize] at hi
    refine Skeleton.mem_terminals.mpr ⟨hi, fun j hj => hnone j ?_⟩
    rw [hs.link]
    exact Shape.parentAt_of_parentOf h hj
  refine ⟨hsub, ?_, ?_⟩
  · intro i hi
    obtain ⟨a, ha⟩ := hposition i (Skeleton.mem_terminals.mp hi).1
    exact ⟨a, ha, (hs.mem_terminals_iff ha).symm⟩
  · intro i hi hlong
    have hlt := (Skeleton.mem_terminals.mp (hsub i hi)).1
    obtain ⟨a, ha⟩ := hposition i hlt
    have hend := (hs.mem_terminals_iff ha).mp hi
    rw [hsize] at hlt
    obtain ⟨s, hsegment⟩ := Shape.exists_thicken shape hlt
    refine ⟨_, hsegment, ?_⟩
    rw [Stroke.thicken, Taper.radii_of_position ha hlong, hend]

/-- The move in the branch cuts off no tip: the branch ends with the taper. -/
theorem tip_at_end_iff_fork :
    Bracket.deepest (Command.ofText "F[f+F]FF") ≤ Shape.slender.stackLimit ∧
      ∃ a, (Taper.ofCommands (Command.ofText "F[f+F]FF")).positions[1]? = some a ∧
        (a + 1 = (Taper.ofCommands (Command.ofText "F[f+F]FF")).length ↔
          1 ∈ (Shape.slender.interpret (Command.unbrokenText "F[f+F]FF")).value.terminals) :=
  ⟨by decide, (tip_at_end_iff Shape.slender "F[f+F]FF" (by decide)).2.1 1 (by decide)⟩

/-- A move makes a tip of the first segment, and the taper goes on behind it. -/
theorem tip_before_end :
    Bracket.deepest (Command.ofText "FfFF") ≤ Shape.slender.stackLimit ∧
      0 ∈ (Shape.slender.interpret "FfFF").value.terminals ∧
      (Taper.ofCommands (Command.ofText "FfFF")).positions[0]? = some 0 ∧
      0 + 1 < (Taper.ofCommands (Command.ofText "FfFF")).length := by
  decide

end Arbor
