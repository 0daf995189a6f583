import Arbor.Proofs.Accounting
import Arbor.Proofs.Positions
import Arbor.Proofs.Strokes

/-!
# The taper covers the walk

The taper of a text and the walk along it come from two readings of the text, one from the
end and one from the front.  They fit together for every text, well bracketed or not.

*No gaps.*  From the root of the longest chain each position has a child at the next one, so
every position below the length is taken (`Taper.mem_positions_iff`).

*No excess.*  A walk has left fewer strokes before a drawing command than the taper has
positions (`Walk.size_lt_positions`).  So it never asks for radii beyond the last segment,
and it does not matter what a taper answers there (`Shape.segments_eq_mapIdx_radiiOr`).

*Counting down.*  A reading counts down only where something was counted before: a `]` that
is not stray takes a branch from those open (`Bracket.openAtEnd_take_succ`), and no segment
is deeper than the longest chain allows (`Taper.exists_position_of_depth`).
-/

namespace Arbor

namespace Taper

/-! ## No gaps -/

/-- The positions are the numbers below the length. -/
theorem mem_positions_iff {cs : List Command} {a : Nat} :
    a ∈ (ofCommands cs).positions ↔ a < (ofCommands cs).length := by
  rw [Array.mem_iff_getElem?]
  constructor
  · rintro ⟨i, hi⟩
    exact position_lt_length hi
  · -- Along the longest chain, from its root.
    induction a with
    | zero => exact exists_position_zero
    | succ a ih =>
      intro ha
      obtain ⟨p, hp⟩ := ih (Nat.lt_of_succ_lt ha)
      obtain ⟨i, -, hi⟩ := exists_parentAt_of_position hp ha
      exact ⟨i, hi⟩

theorem length_eq_zero_iff (cs : List Command) :
    (ofCommands cs).length = 0 ↔ (ofCommands cs).positions = #[] := by
  rw [Array.eq_empty_iff_forall_not_mem]
  simp only [mem_positions_iff]
  constructor
  · intro hzero a
    rw [hzero]
    exact Nat.not_lt_zero a
  · intro hnone
    exact Nat.eq_zero_of_not_pos (hnone 0)

/-- The radii of the `i`-th segment, with an answer of one's own for a segment that is not
there. -/
def radiiOr (beyond : Float32 × Float32) (t : Taper) (i : Nat) (base tip : Float32) :
    Float32 × Float32 :=
  if i < t.positions.size then t.radii i base tip else beyond

end Taper

/-! ## Counting down -/

/-- A `]` that is not stray takes one branch from those open. -/
theorem Bracket.openAtEnd_take_succ {cs : List Command} {i : Nat} (hpop : cs[i]? = some .pop)
    (hstray : (strays cs)[i]? = some false) :
    openAtEnd (cs.take (i + 1)) + 1 = openAtEnd (cs.take i) := by
  rw [strays_eq_flags, getElem?_flags, hpop, Option.map_some, Option.some_inj] at hstray
  have hopen : (cs.take i).foldl level 0 ≠ 0 := by
    simpa [isStray] using hstray
  rw [openAtEnd_eq, openAtEnd_eq, List.take_add_one, hpop, List.foldl_append]
  exact Nat.sub_one_add_one hopen

/-! ## No excess -/

/-- Before a drawing command a walk has left fewer strokes than the taper has positions. -/
theorem Walk.size_lt_positions (shape : Shape) {cs : List Command} {i : Nat}
    (h : cs[i]? = some .draw) :
    (start.run shape (cs.take i)).strokes.size < (Taper.ofCommands cs).positions.size := by
  have hcount : cs.count .draw = (cs.take i).count .draw + (cs.drop i).count .draw := by
    rw [← List.count_append, List.take_append_drop]
  have hdraw : (cs.drop i)[0]? = some .draw := by
    rw [List.getElem?_drop, Nat.add_zero, h]
  have hpos : 0 < (cs.drop i).count .draw := List.count_pos_iff.mpr (List.mem_of_getElem? hdraw)
  have hstart : start.strokes.size = 0 := rfl
  rw [Taper.size_positions, size_strokes_run]
  omega

/-- What a taper answers beyond its last segment does not show in a skeleton. -/
theorem Shape.segments_eq_mapIdx_radiiOr (shape : Shape) (cs : List Command)
    (beyond : Float32 × Float32) :
    (shape.skeleton cs).segments = (Walk.start.run shape cs).strokes.mapIdx fun i s =>
      s.thicken ((Taper.ofCommands cs).radiiOr beyond i shape.baseRadius shape.tipRadius) := by
  apply Array.ext_getElem?
  intro i
  rw [getElem?_segments, Array.getElem?_mapIdx]
  cases hs : (Walk.start.run shape cs).strokes[i]? with
  | none => rfl
  | some s =>
    have hi := lt_count_of_stroke hs
    rw [← Taper.size_positions] at hi
    rw [Taper.radiiOr, if_pos hi]

/-- The taper of a text has a position for every capital, the positions are the numbers
below its length, and the length is zero only where nothing is drawn.  Nothing is taken
from a smaller number on the way: a `]` that is not stray finds a branch open, and a
segment's depth leaves its position and one more of the length.  Before each drawing command
the walk has fewer strokes than there are positions, so its skeleton is the same whatever a
taper answers beyond the last one. -/
theorem taper_covers_walk (shape : Shape) (text : String) :
    let cs := Command.ofText text
    let taper := Taper.ofCommands cs
    taper.positions.size = text.toList.countP Char.isUpper ∧
      (∀ i d : Nat, (Taper.backward cs).depths[i]? = some d →
        ∃ a, taper.positions[i]? = some a ∧ a + d + 1 = taper.length) ∧
      (∀ i : Nat, cs[i]? = some .pop → (Bracket.strays cs)[i]? = some false →
        Bracket.openAtEnd (cs.take (i + 1)) + 1 = Bracket.openAtEnd (cs.take i)) ∧
      (taper.length = 0 ↔ taper.positions = #[]) ∧
      (∀ a, a ∈ taper.positions ↔ a < taper.length) ∧
      (∀ i : Nat, cs[i]? = some .draw →
        (Walk.start.run shape (cs.take i)).strokes.size < taper.positions.size) ∧
      ∀ beyond, (shape.interpret text).value.segments =
        (Walk.start.run shape cs).strokes.mapIdx fun i s =>
          s.thicken (taper.radiiOr beyond i shape.baseRadius shape.tipRadius) := by
  intro cs taper
  have hsize : taper.positions.size = text.toList.countP Char.isUpper :=
    (Taper.size_positions cs).trans (Command.count_draw_ofText text)
  exact ⟨hsize, fun _ _ => Taper.exists_position_of_depth,
    fun _ => Bracket.openAtEnd_take_succ, Taper.length_eq_zero_iff cs,
    fun _ => Taper.mem_positions_iff, fun _ => Walk.size_lt_positions shape,
    shape.segments_eq_mapIdx_radiiOr cs⟩

/-- A stray `]`, a branch that is dropped and closed again, and one that stays open.  There
are fewer strokes than positions before the last drawing command, and the second `]` takes
the branch in front of it. -/
theorem taper_covers_walk_ragged :
    (Command.ofText "]F[F]fF[")[6]? = some .draw ∧
      (Walk.start.run { Shape.slender with stackLimit := 0 }
        ((Command.ofText "]F[F]fF[").take 6)).strokes.size <
          (Taper.ofCommands (Command.ofText "]F[F]fF[")).positions.size ∧
      (Command.ofText "]F[F]fF[")[4]? = some .pop ∧
      (Bracket.strays (Command.ofText "]F[F]fF["))[4]? = some false ∧
      Bracket.openAtEnd ((Command.ofText "]F[F]fF[").take 5) + 1 =
        Bracket.openAtEnd ((Command.ofText "]F[F]fF[").take 4) := by
  obtain ⟨-, -, hopen, -, -, hquery, -⟩ :=
    taper_covers_walk { Shape.slender with stackLimit := 0 } "]F[F]fF["
  have hdraw : (Command.ofText "]F[F]fF[")[6]? = some .draw := by decide
  have hpop : (Command.ofText "]F[F]fF[")[4]? = some .pop := by decide
  have hflag : (Bracket.strays (Command.ofText "]F[F]fF["))[4]? = some false := by decide
  exact ⟨hdraw, hquery 6 hdraw, hpop, hflag, hopen 4 hpop hflag⟩

end Arbor
