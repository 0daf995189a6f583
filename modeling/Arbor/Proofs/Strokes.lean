import Arbor.Proofs.Depth
import Arbor.Walk

/-!
# Strokes of a walk

A walk leaves one stroke for each drawing command and never takes one back.  So a
stroke is known from the state in which its command was read (`exists_draw`), and
what is to be shown of all strokes is shown of the states of a walk.

The segments of a skeleton are the strokes with radii, and the parent of a
segment is that of its stroke (`parentOf_skeleton`).
-/

namespace Arbor

/-! ## Growth of a walk -/

namespace Walk

/-- The stroke that a drawing step leaves. -/
def stroke (shape : Shape) (w : Walk) : Stroke :=
  ⟨w.turtle.position, (w.turtle.advance shape.stepLength).position, w.turtle.standsOn⟩

theorem strokes_step_draw (shape : Shape) (w : Walk) :
    (w.step shape .draw).strokes = w.strokes.push (w.stroke shape) := rfl

theorem strokes_step {c : Command} (h : c ≠ .draw) (shape : Shape) (w : Walk) :
    (w.step shape c).strokes = w.strokes := by
  cases c with
  | draw => exact absurd rfl h
  | move => rfl
  | turn _ => rfl
  | push => exact strokes_push _ w
  | pop => exact strokes_pop w
  | ignore => rfl

/-- A walk only adds strokes. -/
theorem exists_strokes_run (shape : Shape) (cs : List Command) (w : Walk) :
    ∃ drawn, (w.run shape cs).strokes.toList = w.strokes.toList ++ drawn ∧
      drawn.length = cs.count .draw := by
  induction cs generalizing w with
  | nil => exact ⟨[], by simp, rfl⟩
  | cons c cs ih =>
    obtain ⟨drawn, hdrawn, hlength⟩ := ih (w.step shape c)
    rw [run_cons, hdrawn]
    rcases Decidable.em (c = .draw) with rfl | h
    · refine ⟨w.stroke shape :: drawn, ?_, ?_⟩
      · rw [strokes_step_draw, Array.toList_push, List.append_assoc]
        rfl
      · rw [List.length_cons, hlength, List.count_cons_self]
    · exact ⟨drawn, by rw [strokes_step h], by rw [hlength, List.count_cons_of_ne h]⟩

/-- A walk leaves one stroke for each drawing command. -/
theorem size_strokes_run (shape : Shape) (cs : List Command) (w : Walk) :
    (w.run shape cs).strokes.size = w.strokes.size + cs.count .draw := by
  obtain ⟨drawn, hdrawn, hlength⟩ := exists_strokes_run shape cs w
  rw [← Array.length_toList, hdrawn, List.length_append, Array.length_toList, hlength]

/-- Strokes stay as they are. -/
theorem getElem?_strokes_run (shape : Shape) (cs : List Command) {w : Walk} {i : Nat}
    (h : i < w.strokes.size) : (w.run shape cs).strokes[i]? = w.strokes[i]? := by
  obtain ⟨drawn, hdrawn, -⟩ := exists_strokes_run shape cs w
  rw [← Array.getElem?_toList, hdrawn, List.getElem?_append_left (by simpa using h),
    Array.getElem?_toList]

/-- The stroke of a drawing command is found at the number of strokes before it. -/
theorem getElem?_strokes_draw (shape : Shape) (cs ds : List Command) (w : Walk) :
    (w.run shape (cs ++ .draw :: ds)).strokes[(w.run shape cs).strokes.size]? =
      some ((w.run shape cs).stroke shape) := by
  rw [run_append, run_cons, getElem?_strokes_run, strokes_step_draw, Array.getElem?_push_size]
  rw [strokes_step_draw, Array.size_push]
  exact Nat.lt_succ_self _

/-- Every new stroke was left by a drawing command. -/
theorem exists_draw {shape : Shape} {cs : List Command} {w : Walk} {i : Nat} {s : Stroke}
    (hi : w.strokes.size ≤ i) (h : (w.run shape cs).strokes[i]? = some s) :
    ∃ us vs, cs = us ++ .draw :: vs ∧ (w.run shape us).strokes.size = i ∧
      (w.run shape us).stroke shape = s := by
  induction cs generalizing w with
  | nil =>
    rw [run_nil, Array.getElem?_eq_none hi] at h
    cases h
  | cons c cs ih =>
    rw [run_cons] at h
    by_cases hnew : c = .draw ∧ w.strokes.size = i
    · obtain ⟨rfl, rfl⟩ := hnew
      have hs := getElem?_strokes_draw shape [] cs w
      refine ⟨[], cs, rfl, rfl, Option.some.inj ?_⟩
      rw [← h]
      exact hs.symm
    · have hi' : (w.step shape c).strokes.size ≤ i := by
        rcases Decidable.em (c = .draw) with rfl | hc
        · have hne : w.strokes.size ≠ i := fun he => hnew ⟨rfl, he⟩
          rw [strokes_step_draw, Array.size_push]
          omega
        · rw [strokes_step hc]
          exact hi
      obtain ⟨us, vs, rfl, hsize, hs⟩ := ih hi' h
      exact ⟨c :: us, vs, rfl, hsize, hs⟩

end Walk

/-! ## Links of a skeleton -/

/-- A segment without its radii. -/
def Segment.stroke (s : Segment) : Stroke := ⟨s.base, s.tip, s.parent⟩

namespace Skeleton

/-- The segments without their radii. -/
def strokes (s : Skeleton) : List Stroke := s.segments.toList.map Segment.stroke

/-- The parent of a segment, if there is such a segment and it has one. -/
def parentOf (s : Skeleton) (i : Nat) : Option Nat := s.segments[i]?.bind Segment.parent

end Skeleton

namespace Shape

theorem getElem?_segments (shape : Shape) (cs : List Command) (i : Nat) :
    (shape.skeleton cs).segments[i]? =
      ((Walk.start.run shape cs).strokes[i]?).map fun s =>
        s.thicken ((Taper.ofCommands cs).radii i shape.baseRadius shape.tipRadius) := by
  rw [skeleton, Walk.skeleton, Array.getElem?_mapIdx]

/-- Without its radii a skeleton has the strokes of its walk. -/
theorem strokes_skeleton (shape : Shape) (cs : List Command) :
    (shape.skeleton cs).strokes = (Walk.start.run shape cs).strokes.toList := by
  apply List.ext_getElem?
  intro i
  rw [Skeleton.strokes, List.getElem?_map, Array.getElem?_toList, getElem?_segments,
    Array.getElem?_toList, Option.map_map]
  exact Option.map_id'

/-- Strokes and taper make the segments. -/
theorem segments_congr {shape : Shape} {cs ds : List Command}
    (hstrokes : (shape.skeleton cs).strokes = (shape.skeleton ds).strokes)
    (htaper : Taper.ofCommands cs = Taper.ofCommands ds) :
    (shape.skeleton cs).segments = (shape.skeleton ds).segments := by
  apply Array.ext_getElem?
  intro i
  rw [strokes_skeleton, strokes_skeleton] at hstrokes
  rw [getElem?_segments, getElem?_segments, htaper, ← Array.getElem?_toList, hstrokes,
    Array.getElem?_toList]

theorem lt_count_of_stroke {shape : Shape} {cs : List Command} {i : Nat} {s : Stroke}
    (h : (Walk.start.run shape cs).strokes[i]? = some s) : i < cs.count .draw := by
  obtain ⟨hi, -⟩ := Array.getElem?_eq_some_iff.mp h
  rw [Walk.size_strokes_run] at hi
  simpa [Walk.start] using hi

theorem getElem?_segments_of_stroke {shape : Shape} {cs : List Command} {i : Nat} {s : Stroke}
    (h : (Walk.start.run shape cs).strokes[i]? = some s) :
    (shape.skeleton cs).segments[i]? =
      some (s.thicken ((Taper.ofCommands cs).radii i shape.baseRadius shape.tipRadius)) := by
  rw [getElem?_segments, h, Option.map_some]

/-- Every drawing command has its segment. -/
theorem size_segments (shape : Shape) (cs : List Command) :
    (shape.skeleton cs).segments.size = cs.count .draw := by
  rw [skeleton, Walk.size_skeleton, Walk.size_strokes_run]
  exact Nat.zero_add _

theorem exists_thicken (shape : Shape) {cs : List Command} {i : Nat} (h : i < cs.count .draw) :
    ∃ s : Stroke, (shape.skeleton cs).segments[i]? =
      some (s.thicken ((Taper.ofCommands cs).radii i shape.baseRadius shape.tipRadius)) := by
  have hi : i < (Walk.start.run shape cs).strokes.size := by
    rw [Walk.size_strokes_run]
    exact Nat.lt_of_lt_of_le h (Nat.le_add_left ..)
  exact ⟨_, getElem?_segments_of_stroke (Array.getElem?_eq_getElem hi)⟩

/-- The parent of a segment is that of its stroke. -/
theorem parentOf_skeleton (shape : Shape) (cs : List Command) (i : Nat) :
    (shape.skeleton cs).parentOf i =
      ((Walk.start.run shape cs).strokes[i]?).bind Stroke.parent := by
  rw [Skeleton.parentOf, getElem?_segments, Option.bind_map]
  rfl

/-- A link was made in some state of the walk, where the turtle stood on the
parent. -/
theorem exists_draw_of_parentOf {shape : Shape} {cs : List Command} {i p : Nat}
    (h : (shape.skeleton cs).parentOf i = some p) :
    ∃ us vs, cs = us ++ .draw :: vs ∧ (Walk.start.run shape us).strokes.size = i ∧
      (Walk.start.run shape us).turtle.standsOn = some p := by
  rw [parentOf_skeleton] at h
  obtain ⟨s, hs, hp⟩ := Option.bind_eq_some_iff.mp h
  obtain ⟨us, vs, rfl, hsize, rfl⟩ := Walk.exists_draw (Nat.zero_le i) hs
  exact ⟨us, vs, rfl, hsize, hp⟩

/-- The parent of a drawing command's segment is what the turtle stands on. -/
theorem parentOf_draw (shape : Shape) (us vs : List Command) :
    (shape.skeleton (us ++ .draw :: vs)).parentOf (Walk.start.run shape us).strokes.size =
      (Walk.start.run shape us).turtle.standsOn := by
  rw [parentOf_skeleton, Walk.getElem?_strokes_draw]
  rfl

end Shape

end Arbor
