import Arbor.Proofs.Positions
import Arbor.Proofs.Strokes
import Mathlib.Data.List.Chain
import Mathlib.Order.Bounds.Defs

/-!
# Descent

A path of a skeleton descends from a segment towards a tip, each segment growing
out of the one before.  The taper of a text measures the longest of them, in the
skeleton that the text draws without its moves and with room for all its
branches.

*The walk mirrors the lineage.*  As long as no push is dropped and no move is
read, the turtle stands on the live segment of the lineage and its saved copies on
the saved ones (`Walk.Follows`).  So the skeleton has the links of the lineage
(`mirrors_skeleton`).

*The taper measures paths.*  Positions grow along a path, and before the end of
the taper a path can be continued by one position (`length_lt_of_isPath`,
`exists_isPath`).

`taper_measures_descent` puts both together.
-/

namespace Arbor

namespace Lineage

theorem parentAt_unbroken (cs : List Command) (i : Nat) :
    parentAt (Command.unbroken cs) i = parentAt cs i := by
  rw [parentAt, parents_unbroken, parentAt]

end Lineage

/-! ## The walk mirrors the lineage -/

namespace Walk

/-- The walk has dropped no push and read no move, and its turtles stand on the
segments of the lineage. -/
structure Follows (w : Walk) (t : Lineage) : Prop where
  /-- The turtle stands on the end of the chain. -/
  live : w.turtle.standsOn = t.live
  /-- The saved turtles stand where the open branches go on. -/
  saved : w.saved.map Turtle.standsOn = t.saved
  /-- As many strokes as segments. -/
  size : w.strokes.size = t.size
  /-- Every open branch is saved. -/
  dropped : w.dropped = 0

theorem follows_start : start.Follows .start := ⟨rfl, rfl, rfl, rfl⟩

theorem Follows.push {w : Walk} {t : Lineage} (h : w.Follows t) {limit : Nat}
    (hroom : w.saved.length < limit) : (w.push limit).Follows (t.read .push) := by
  rw [push_of_room hroom]
  refine ⟨h.live, ?_, h.size, h.dropped⟩
  rw [List.map_cons, h.live, h.saved]
  rfl

theorem Follows.pop {w : Walk} {t : Lineage} (h : w.Follows t) : w.pop.Follows (t.read .pop) := by
  have hsaved := h.saved
  cases hw : w.saved with
  | nil =>
    rw [hw, List.map_nil] at hsaved
    rw [pop_of_nil h.dropped hw, Lineage.read_pop_of_nil hsaved.symm]
    exact ⟨h.live, h.saved, h.size, h.dropped⟩
  | cons turtle saved =>
    rw [hw, List.map_cons] at hsaved
    rw [pop_of_cons h.dropped hw, Lineage.read_pop_of_cons hsaved.symm]
    exact ⟨rfl, rfl, h.size, h.dropped⟩

theorem Follows.step {w : Walk} {t : Lineage} (h : w.Follows t) {shape : Shape} {c : Command}
    (hc : c ≠ .move) (hroom : Bracket.level w.saved.length c ≤ shape.stackLimit) :
    (w.step shape c).Follows (t.read c) := by
  cases c with
  | draw =>
    refine ⟨?_, h.saved, ?_, h.dropped⟩
    · exact congrArg some h.size
    · rw [strokes_step_draw, Array.size_push, h.size]
      rfl
  | move => exact absurd rfl hc
  | turn u => exact ⟨(Turn.standsOn_apply ..).trans h.live, h.saved, h.size, h.dropped⟩
  | push =>
    obtain ⟨hlive, hsaved, hsize, hdropped⟩ := h.push hroom
    exact ⟨hlive, hsaved, hsize, hdropped⟩
  | pop =>
    obtain ⟨hlive, hsaved, hsize, hdropped⟩ := h.pop
    exact ⟨hlive, hsaved, hsize, hdropped⟩
  | ignore => exact ⟨h.live, h.saved, h.size, h.dropped⟩

theorem Follows.length_saved {w : Walk} {t : Lineage} (h : w.Follows t) :
    w.saved.length = t.saved.length := by
  rw [← h.saved, List.length_map]

theorem Follows.run {w : Walk} {t : Lineage} (h : w.Follows t) {shape : Shape}
    {cs : List Command} (hcs : .move ∉ cs)
    (hroom : Bracket.peak w.saved.length cs ≤ shape.stackLimit) :
    (w.run shape cs).Follows (t.run cs) := by
  induction cs generalizing w t with
  | nil => exact h
  | cons c cs ih =>
    have hc : c ≠ .move := fun he => hcs (he ▸ List.mem_cons_self)
    have hpeak := Bracket.peak_cons_le hroom
    have hstep := h.step hc (Nat.le_trans (Bracket.le_peak _ cs) hpeak)
    refine ih hstep (fun hm => hcs (List.mem_cons_of_mem _ hm)) ?_
    rw [hstep.length_saved, Lineage.length_saved_read, ← h.length_saved]
    exact hpeak

end Walk

namespace Skeleton

/-- The skeleton has the segments and the links of the lineage of a text. -/
structure Mirrors (s : Skeleton) (cs : List Command) : Prop where
  /-- One segment for each drawing command. -/
  size : s.segments.size = cs.count .draw
  /-- Each with its parent. -/
  link : ∀ i, s.parentOf i = Lineage.parentAt cs i

end Skeleton

/-- With room for all branches and without its moves a text draws its lineage. -/
theorem mirrors_skeleton {shape : Shape} {cs : List Command}
    (h : Bracket.deepest cs ≤ shape.stackLimit) :
    (shape.skeleton (Command.unbroken cs)).Mirrors cs := by
  constructor
  · rw [Shape.size_segments, Command.count_draw_unbroken]
  · intro i
    rw [← Lineage.parentAt_unbroken]
    have hmoves := Command.move_notMem_unbroken cs
    rw [← Bracket.deepest_unbroken] at h
    generalize Command.unbroken cs = ds at h hmoves
    by_cases hi : i < (Walk.start.run shape ds).strokes.size
    · obtain ⟨us, vs, rfl, rfl, -⟩ :=
        Walk.exists_draw (Nat.zero_le i) (Array.getElem?_eq_getElem hi)
      have hroom := Nat.le_trans (Bracket.deepest_le_append us (.draw :: vs)) h
      have hf := Walk.follows_start.run (fun hm => hmoves (List.mem_append_left _ hm)) hroom
      rw [Shape.parentOf_draw, hf.size, Lineage.parentAt_draw, hf.live]
    · have hnone : (Walk.start.run shape ds).strokes[i]? = none :=
        Array.getElem?_eq_none (Nat.le_of_not_lt hi)
      have hsize : (Lineage.start.parents ds).length ≤ i := by
        rw [Walk.size_strokes_run] at hi
        rw [Lineage.length_parents]
        simpa [Walk.start] using hi
      rw [Shape.parentOf_skeleton, hnone, Lineage.parentAt, List.getElem?_eq_none hsize]
      rfl

/-! ## The taper measures paths -/

namespace Skeleton

/-- A path descends: each segment on it grows out of the one before. -/
def IsPath (s : Skeleton) (path : List Nat) : Prop :=
  (∀ i ∈ path, i < s.segments.size) ∧ path.IsChain fun p i => s.parentOf i = some p

/-- The second segment grows out of the first one and lies right behind it in a taper. -/
def Next (s : Skeleton) (taper : Taper) (p i : Nat) : Prop :=
  s.parentOf i = some p ∧ ∃ a, taper.positions[p]? = some a ∧ taper.positions[i]? = some (a + 1)

theorem isPath_nil (s : Skeleton) : s.IsPath [] := ⟨by simp, .nil⟩

theorem isPath_singleton {s : Skeleton} {i : Nat} (h : i < s.segments.size) : s.IsPath [i] :=
  ⟨by simpa using h, .singleton i⟩

theorem isPath_cons_cons {s : Skeleton} {p i : Nat} {path : List Nat} :
    s.IsPath (p :: i :: path) ↔
      p < s.segments.size ∧ s.parentOf i = some p ∧ s.IsPath (i :: path) := by
  rw [IsPath, IsPath, List.forall_mem_cons, List.isChain_cons_cons]
  constructor
  · rintro ⟨⟨hp, hsize⟩, hlink, hchain⟩
    exact ⟨hp, hlink, hsize, hchain⟩
  · rintro ⟨hp, hlink, hsize, hchain⟩
    exact ⟨⟨hp, hsize⟩, hlink, hchain⟩

section

variable {s : Skeleton} {cs : List Command} (hs : s.Mirrors cs)
include hs

theorem Mirrors.lt_size {i a : Nat} (ha : (Taper.ofCommands cs).positions[i]? = some a) :
    i < s.segments.size := by
  rw [hs.size]
  exact Taper.lt_count_of_position ha

/-- Positions grow along a path, so it ends before the taper does. -/
theorem Mirrors.length_lt_of_isPath {i a : Nat} {path : List Nat}
    (hpath : s.IsPath (i :: path)) (ha : (Taper.ofCommands cs).positions[i]? = some a) :
    a + path.length < (Taper.ofCommands cs).length := by
  induction path generalizing i a with
  | nil => exact Taper.position_lt_length ha
  | cons j path ih =>
    obtain ⟨-, hlink, hpath⟩ := isPath_cons_cons.mp hpath
    rw [hs.link] at hlink
    obtain ⟨a', b, ha', hb, hlt⟩ := Taper.position_lt_of_parentAt hlink
    cases ha.symm.trans ha'
    have hrest := ih hpath hb
    rw [List.length_cons]
    omega

/-- Before the end of the taper some child lies right behind its parent. -/
theorem Mirrors.exists_next {p a : Nat} (ha : (Taper.ofCommands cs).positions[p]? = some a)
    (hlt : a + 1 < (Taper.ofCommands cs).length) :
    ∃ i, s.Next (Taper.ofCommands cs) p i ∧
      (Taper.ofCommands cs).positions[i]? = some (a + 1) := by
  obtain ⟨i, hlink, hi⟩ := Taper.exists_parentAt_of_position ha hlt
  rw [← hs.link] at hlink
  exact ⟨i, ⟨hlink, a, ha, hi⟩, hi⟩

/-- Up to the end of the taper some path takes one position after the other. -/
theorem Mirrors.exists_descent {i a n : Nat}
    (ha : (Taper.ofCommands cs).positions[i]? = some a)
    (hn : a + n + 1 = (Taper.ofCommands cs).length) :
    ∃ path, s.IsPath (i :: path) ∧ (i :: path).IsChain (s.Next (Taper.ofCommands cs)) ∧
      path.length = n := by
  induction n generalizing i a with
  | zero => exact ⟨[], isPath_singleton (hs.lt_size ha), .singleton i, rfl⟩
  | succ n ih =>
    obtain ⟨j, hnext, hj⟩ := hs.exists_next ha (by omega)
    obtain ⟨path, hpath, hchain, hlength⟩ := ih hj (by omega)
    exact ⟨j :: path, isPath_cons_cons.mpr ⟨hs.lt_size ha, hnext.1, hpath⟩,
      .cons_cons hnext hchain, congrArg (· + 1) hlength⟩

theorem Mirrors.exists_isPath {i a n : Nat}
    (ha : (Taper.ofCommands cs).positions[i]? = some a)
    (hn : a + n + 1 = (Taper.ofCommands cs).length) :
    ∃ path, s.IsPath (i :: path) ∧ path.length = n := by
  obtain ⟨path, hpath, -, hlength⟩ := hs.exists_descent ha hn
  exact ⟨path, hpath, hlength⟩

/-- A position says how long the longest path down from a segment is. -/
theorem Mirrors.isGreatest_descent {i a n : Nat}
    (ha : (Taper.ofCommands cs).positions[i]? = some a)
    (hn : a + n + 1 = (Taper.ofCommands cs).length) :
    IsGreatest {m | ∃ path, s.IsPath (i :: path) ∧ path.length = m} n := by
  constructor
  · exact hs.exists_isPath ha hn
  · rintro m ⟨path, hpath, rfl⟩
    have hlt := hs.length_lt_of_isPath hpath ha
    omega

/-- The length of the taper is that of the longest path. -/
theorem Mirrors.isGreatest_length :
    IsGreatest {m | ∃ path, s.IsPath path ∧ path.length = m} (Taper.ofCommands cs).length := by
  constructor
  · cases hlength : (Taper.ofCommands cs).length with
    | zero => exact ⟨[], s.isPath_nil, rfl⟩
    | succ n =>
      have hpos : 0 < (Taper.ofCommands cs).length := by
        rw [hlength]
        exact Nat.succ_pos n
      obtain ⟨i, hi⟩ := Taper.exists_position_zero hpos
      obtain ⟨path, hpath, rfl⟩ := hs.exists_isPath hi (n := n) (by omega)
      exact ⟨i :: path, hpath, rfl⟩
  · rintro m ⟨path, hpath, rfl⟩
    cases path with
    | nil => exact Nat.zero_le _
    | cons i path =>
      have hi := hpath.1 i List.mem_cons_self
      rw [hs.size] at hi
      obtain ⟨a, ha⟩ := Taper.exists_position hi
      have hlt := hs.length_lt_of_isPath hpath ha
      rw [List.length_cons]
      omega

end

end Skeleton

/-- With room for all branches, the taper of a text has one position for each
segment.  Its length is the number of segments on the longest path of the tree that
the text draws without its small letters, and what remains behind a segment's
position is the number of links on the longest path down from it. -/
theorem taper_measures_descent (shape : Shape) (text : String)
    (h : Bracket.deepest (Command.ofText text) ≤ shape.stackLimit) :
    let taper := Taper.ofCommands (Command.ofText text)
    let tree := (shape.interpret (Command.unbrokenText text)).value
    taper.positions.size = (shape.interpret text).value.segments.size ∧
      tree.segments.size = (shape.interpret text).value.segments.size ∧
      IsGreatest {m | ∃ path, tree.IsPath path ∧ path.length = m} taper.length ∧
      ∀ i < taper.positions.size, ∃ a n, taper.positions[i]? = some a ∧
        a + n + 1 = taper.length ∧
        IsGreatest {m | ∃ path, tree.IsPath (i :: path) ∧ path.length = m} n := by
  intro taper tree
  have hs : tree.Mirrors (Command.ofText text) := by
    rw [show tree = shape.skeleton _ from Shape.value_interpret .., Command.ofText_unbrokenText]
    exact mirrors_skeleton h
  refine ⟨?_, ?_, hs.isGreatest_length, ?_⟩
  · rw [Taper.size_positions, Shape.value_interpret, Shape.size_segments]
  · rw [hs.size, Shape.value_interpret, Shape.size_segments]
  · intro i hi
    have ha : taper.positions[i]? = some taper.positions[i] := Array.getElem?_eq_getElem hi
    have hlt : taper.positions[i] < taper.length := Taper.position_lt_length ha
    obtain ⟨n, hn⟩ : ∃ n, taper.positions[i] + n + 1 = taper.length :=
      ⟨taper.length - taper.positions[i] - 1, by omega⟩
    exact ⟨_, n, ha, hn, hs.isGreatest_descent ha hn⟩

/-- A stray `]`, a move within a branch and a branch that is left open. -/
theorem taper_measures_descent_ragged :
    Bracket.deepest (Command.ofText "]F[FfF]F[F") ≤ Shape.slender.stackLimit ∧
      IsGreatest {m | ∃ path,
        (Shape.slender.interpret (Command.unbrokenText "]F[FfF]F[F")).value.IsPath path ∧
          path.length = m} 3 :=
  ⟨by decide, (taper_measures_descent Shape.slender "]F[FfF]F[F" (by decide)).2.2.1⟩

end Arbor
