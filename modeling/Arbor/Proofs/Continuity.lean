import Arbor.Proofs.Tips

/-!
# Continuity

Where a tree tapers, there is no step in its thickness along the longest chains.

*Positions.*  Both radii of a segment come from its position in the taper, the second one as
the first one of the position behind it.  So a child that lies right behind its parent starts
as wide as the parent ends, whatever the rounding (`Taper.radii_next`).

*Chains.*  In a tree drawn without moves and with room for all branches every segment that is
not a tip has such a child, and from the root of the longest chain a path leads from one to the
next up to the end of the taper.
-/

namespace Arbor

namespace Command

theorem unbrokenText_of_forall {text : String} (h : ∀ c ∈ text.toList, c.isLower = false) :
    unbrokenText text = text := by
  rw [unbrokenText, List.filter_eq_self.mpr fun c hc => by rw [h c hc, Bool.not_false],
    String.ofList_toList]

end Command

namespace Taper

/-- The radii of a segment come from its position. -/
theorem radii_congr_position {t : Taper} {i j : Nat} (h : t.positions[i]? = t.positions[j]?)
    (base tip : Float32) : t.radii i base tip = t.radii j base tip := by
  rw [radii, radii, h]

/-- A segment begins with the radius with which one right before it ends. -/
theorem radii_next {t : Taper} {p i a : Nat} (hp : t.positions[p]? = some a)
    (hi : t.positions[i]? = some (a + 1)) (hlong : 2 ≤ t.length) (base tip : Float32) :
    (t.radii i base tip).1 = (t.radii p base tip).2 := by
  rw [radii_of_position hp hlong, radii_of_position hi hlong]

end Taper

namespace Skeleton

/-- The second segment grows out of the first one and starts as wide as that one ends. -/
def Continues (s : Skeleton) (p i : Nat) : Prop :=
  s.parentOf i = some p ∧ ∃ parent child, s.segments[p]? = some parent ∧
    s.segments[i]? = some child ∧ child.baseRadius = parent.tipRadius

/-- The segment grows out of none. -/
def IsRoot (s : Skeleton) (i : Nat) : Prop := s.segments[i]?.map Segment.parent = some none

/-- The first position of a taper is that of a root. -/
theorem Mirrors.isRoot {s : Skeleton} {cs : List Command} (hs : s.Mirrors cs) {i : Nat}
    (h : (Taper.ofCommands cs).positions[i]? = some 0) : s.IsRoot i := by
  have hlink : s.parentOf i = none := by
    refine Option.eq_none_iff_forall_ne_some.mpr fun p hp => ?_
    rw [hs.link] at hp
    obtain ⟨a, b, -, hb, hlt⟩ := Taper.position_lt_of_parentAt hp
    cases h.symm.trans hb
    exact Nat.not_lt_zero a hlt
  have hsegment := Array.getElem?_eq_getElem (hs.lt_size h)
  rw [parentOf, hsegment, Option.bind_some] at hlink
  rw [IsRoot, hsegment, Option.map_some, hlink]

end Skeleton

/-- There is no step in the thickness where a child lies right behind its parent. -/
theorem Shape.continues_of_next {shape : Shape} {cs : List Command} {p i : Nat}
    (h : (shape.skeleton cs).Next (Taper.ofCommands cs) p i) :
    (shape.skeleton cs).Continues p i := by
  obtain ⟨hlink, a, hp, hi⟩ := h
  obtain ⟨parent, hparent⟩ := shape.exists_thicken (Taper.lt_count_of_position hp)
  obtain ⟨child, hchild⟩ := shape.exists_thicken (Taper.lt_count_of_position hi)
  have hlength := Taper.position_lt_length hi
  exact ⟨hlink, _, _, hparent, hchild, Taper.radii_next hp hi (by omega) _ _⟩

/-- A text without small letters draws a tree without a step in its thickness, where there is
room for its branches.  Every segment that is not a tip goes on in some child as wide as it
ends.  All tips end with one radius.  If anything is drawn, some chain from a root goes on in
this way as long as the taper is. -/
theorem radius_continuous (shape : Shape) (text : String)
    (hmoves : ∀ c ∈ text.toList, c.isLower = false)
    (hroom : Bracket.deepest (Command.ofText text) ≤ shape.stackLimit) :
    let taper := Taper.ofCommands (Command.ofText text)
    let drawn := (shape.interpret text).value
    (∀ p < drawn.segments.size, p ∉ drawn.terminals → ∃ i, drawn.Continues p i) ∧
      (∀ i ∈ drawn.terminals, ∀ j ∈ drawn.terminals, ∃ one other,
        drawn.segments[i]? = some one ∧ drawn.segments[j]? = some other ∧
          one.tipRadius = other.tipRadius) ∧
      (0 < drawn.segments.size → ∃ root path, drawn.IsRoot root ∧
        (root :: path).length = taper.length ∧ (root :: path).IsChain drawn.Continues) := by
  intro taper drawn
  have hs : drawn.Mirrors (Command.ofText text) := by
    have hmirrors := mirrors_skeleton hroom
    rwa [← Command.ofText_unbrokenText, Command.unbrokenText_of_forall hmoves] at hmirrors
  have hposition : ∀ i < drawn.segments.size, ∃ a, taper.positions[i]? = some a := by
    intro i hi
    rw [hs.size] at hi
    exact Taper.exists_position hi
  refine ⟨?_, ?_, ?_⟩
  · intro p hp hinner
    obtain ⟨a, ha⟩ := hposition p hp
    rw [hs.mem_terminals_iff ha] at hinner
    have hlt := Taper.position_lt_length ha
    obtain ⟨i, hnext, -⟩ := hs.exists_next ha (by omega)
    exact ⟨i, Shape.continues_of_next hnext⟩
  · intro i hi j hj
    have hisize := (Skeleton.mem_terminals.mp hi).1
    have hjsize := (Skeleton.mem_terminals.mp hj).1
    obtain ⟨a, ha⟩ := hposition i hisize
    obtain ⟨b, hb⟩ := hposition j hjsize
    -- Both are at the last position.
    have haend := (hs.mem_terminals_iff ha).mp hi
    have hbend := (hs.mem_terminals_iff hb).mp hj
    have hsame : taper.positions[i]? = taper.positions[j]? := by
      rw [ha, hb, Nat.add_right_cancel (haend.trans hbend.symm)]
    rw [hs.size] at hisize hjsize
    obtain ⟨one, hone⟩ := shape.exists_thicken hisize
    obtain ⟨other, hother⟩ := shape.exists_thicken hjsize
    exact ⟨_, _, hone, hother, congrArg Prod.snd (Taper.radii_congr_position hsame _ _)⟩
  · intro hpos
    obtain ⟨a, ha⟩ := hposition 0 hpos
    have hlong : 0 < taper.length := Nat.zero_lt_of_lt (Taper.position_lt_length ha)
    obtain ⟨n, hn⟩ := Nat.exists_eq_add_one_of_ne_zero (Nat.ne_of_gt hlong)
    obtain ⟨root, hroot⟩ := Taper.exists_position_zero hlong
    obtain ⟨path, -, hchain, hlength⟩ :=
      hs.exists_descent hroot ((congrArg (· + 1) (Nat.zero_add n)).trans hn.symm)
    exact ⟨root, path, hs.isRoot hroot, (congrArg (· + 1) hlength).trans hn.symm,
      hchain.imp fun _ _ => Shape.continues_of_next⟩

/-- Of two branches the second one, with another branch in it, is the longer one. -/
theorem radius_continuous_fork :
    (∀ c ∈ "F[+F]F[-F[F]FF]F".toList, c.isLower = false) ∧
      Bracket.deepest (Command.ofText "F[+F]F[-F[F]FF]F") ≤ Shape.slender.stackLimit ∧
      (∃ i, (Shape.slender.interpret "F[+F]F[-F[F]FF]F").value.Continues 2 i) ∧
      ∃ root path, (Shape.slender.interpret "F[+F]F[-F[F]FF]F").value.IsRoot root ∧
        (root :: path).length = 5 ∧
        (root :: path).IsChain (Shape.slender.interpret "F[+F]F[-F[F]FF]F").value.Continues := by
  have hall : ("F[+F]F[-F[F]FF]F".toList.all fun c => c.isLower = false) = true := by decide
  have hmoves : ∀ c ∈ "F[+F]F[-F[F]FF]F".toList, c.isLower = false := by
    intro c hc
    exact of_decide_eq_true (List.all_eq_true.mp hall c hc)
  have hroom : Bracket.deepest (Command.ofText "F[+F]F[-F[F]FF]F") ≤ Shape.slender.stackLimit := by
    decide
  obtain ⟨hinner, -, hchain⟩ := radius_continuous Shape.slender "F[+F]F[-F[F]FF]F" hmoves hroom
  exact ⟨hmoves, hroom, hinner 2 (by decide) (by decide), hchain (by decide)⟩

end Arbor
