import Arbor.Proofs.Descent
import Arbor.Proofs.Footing
import Arbor.Proofs.Monotone
import Arbor.Proofs.Overflow

/-!
# Thinning

A segment should lie behind its parent in the taper, and then it is nowhere wider
than its parent's tip.  This holds of every link that is one of the lineage.

*Other links.*  When the stack has run over, a branch is drawn onto the chain, and
the chain goes on from the branch.  The parent of such a link is at the end of the
taper, so the taper starts anew behind it (`thins_iff`, `widens_in_overflow`).
-/

namespace Arbor

/-- A segment starts no wider than one before it in the taper ends. -/
theorem Taper.not_lt_radii {t : Taper} {p i a b : Nat} (ha : t.positions[p]? = some a)
    (hb : t.positions[i]? = some b) (hlt : a < b) (hlength : b < t.length) {base tip : Float32}
    (h : tip ≤ base) : ¬ (t.radii p base tip).2 < (t.radii i base tip).1 := by
  have hlong : 2 ≤ t.length := by omega
  rw [radii_of_position ha hlong, radii_of_position hb hlong]
  exact Binary32.not_lt_of_steps h (by omega) hlt

/-- A link goes forward in the taper if and only if it is a link of the tree that the
text draws without its small letters and with room for all branches.  Then the child
starts no wider than its parent ends.  Any other link starts at the end of the
taper, and is made only when the stack has run over. -/
theorem thins_iff (shape : Shape) (text : String) {i p : Nat}
    (h : (shape.interpret text).value.parentOf i = some p) :
    let taper := Taper.ofCommands (Command.ofText text)
    let drawn := (shape.interpret text).value
    let depth := Bracket.deepest (Command.ofText text)
    let tree := (({ shape with stackLimit := depth }).interpret (Command.unbrokenText text)).value
    ∃ a b, taper.positions[p]? = some a ∧ taper.positions[i]? = some b ∧
      (a < b ↔ tree.parentOf i = some p) ∧
      (¬ a < b → shape.stackLimit < depth ∧ a + 1 = taper.length) ∧
      ∃ parent child, drawn.segments[p]? = some parent ∧ drawn.segments[i]? = some child ∧
        (a < b → shape.tipRadius ≤ shape.baseRadius →
          ¬ parent.tipRadius < child.baseRadius) := by
  intro taper drawn depth tree
  have hs : tree.Mirrors (Command.ofText text) := by
    rw [show tree = Shape.skeleton _ _ from Shape.value_interpret .., Command.ofText_unbrokenText]
    exact mirrors_skeleton (Nat.le_refl depth)
  rw [Shape.value_interpret] at h
  obtain ⟨-, child, parent, hchild, hparent, -⟩ := Shape.exists_strokes_of_parentOf h
  obtain ⟨a, ha⟩ := Taper.exists_position (Shape.lt_count_of_stroke hparent)
  obtain ⟨b, hb⟩ := Taper.exists_position (Shape.lt_count_of_stroke hchild)
  have hlength : b < taper.length := Taper.position_lt_length hb
  have hcases : Lineage.parentAt (Command.ofText text) i = some p ∧ a < b ∨
      Lineage.parentAt (Command.ofText text) i ≠ some p ∧
        shape.stackLimit < depth ∧ a + 1 = taper.length := by
    rcases Shape.parentOf_cases h with hlink | ⟨hover, hchildless⟩
    · obtain ⟨a', b', ha', hb', hlt⟩ := Taper.position_lt_of_parentAt hlink
      cases ha.symm.trans ha'
      cases hb.symm.trans hb'
      exact .inl ⟨hlink, hlt⟩
    · exact .inr ⟨hchildless i, hover, (Taper.at_end_iff_childless ha).mpr hchildless⟩
  refine ⟨a, b, ha, hb, ?_, ?_, _, _, Shape.getElem?_segments_of_stroke hparent,
    Shape.getElem?_segments_of_stroke hchild, fun hlt => Taper.not_lt_radii ha hb hlt hlength⟩
  · rw [hs.link]
    rcases hcases with ⟨hlink, hlt⟩ | ⟨hlink, -, hend⟩
    · exact iff_of_true hlt hlink
    · exact iff_of_false (by omega) hlink
  · intro hnot
    exact (hcases.resolve_left fun ⟨_, hlt⟩ => hnot hlt).2

/-- Within the branch the second piece grows out of the first one. -/
theorem thins_iff_fork :
    (Shape.slender.interpret "F[+FF]F").value.parentOf 2 = some 1 ∧
      ∃ a b, (Taper.ofCommands (Command.ofText "F[+FF]F")).positions[1]? = some a ∧
        (Taper.ofCommands (Command.ofText "F[+FF]F")).positions[2]? = some b ∧
        (a < b ↔ (({ Shape.slender with stackLimit := 1 }).interpret
          (Command.unbrokenText "F[+FF]F")).value.parentOf 2 = some 1) := by
  obtain ⟨a, b, ha, hb, hiff, -⟩ := thins_iff Shape.slender "F[+FF]F" (i := 2) (p := 1) (by decide)
  exact ⟨by decide, a, b, ha, hb, hiff⟩

/-- Without room for the branch the trunk grows out of it, and starts as wide as the
root where the branch has become as thin as a tip. -/
theorem widens_in_overflow :
    let shape : Shape := { Shape.slender with baseRadius := 1, tipRadius := 0, stackLimit := 0 }
    let drawn := (shape.interpret "[F]FF").value
    let taper := Taper.ofCommands (Command.ofText "[F]FF")
    drawn.parentOf 1 = some 0 ∧ taper.positions = #[1, 0, 1] ∧
      shape.tipRadius ≤ shape.baseRadius ∧
      drawn.segments[0]?.map Segment.tipRadius = some 0 ∧
      drawn.segments[1]?.map Segment.baseRadius = some 1 ∧ (0 : Float32) < 1 := by
  decide

end Arbor
