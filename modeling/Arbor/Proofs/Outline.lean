import Arbor.Proofs.Lineage
import Arbor.Proofs.Roots

/-!
# Outlines

How a tree branches does not depend on where it grows.

*Outlines.*  The outline of a walk is what is left of it without positions and
orientations: which segment each turtle stands on, what is dropped and stray, and the parent
of each segment.  The next outline follows from the last one, the stack limit and the
command (`Walk.outline_step`), and a turn has no part in it (`Outline.run_unturned`).  So
two texts that differ in their turns have one outline, whatever the measures of the two
trees are.

*Radii.*  The taper has even less to do with a walk: it reads the brackets and counts the
drawing commands.  Neither turns nor moves nor the stack limit have a part in the radii of
a tree (`Shape.radii_skeleton`).
-/

namespace Arbor

namespace Command

/-- Whether a command does more than turn the turtle. -/
def acts : Command → Bool
  | .turn _ => false
  | .ignore => false
  | _ => true

theorem acts_eq_false {c : Command} (h : c.acts = false) : (∃ t, c = .turn t) ∨ c = .ignore := by
  cases c with
  | turn t => exact .inl ⟨t, rfl⟩
  | ignore => exact .inr rfl
  | draw => cases h
  | move => cases h
  | push => cases h
  | pop => cases h

/-- The command list without turns and ignored symbols. -/
def unturned (cs : List Command) : List Command := cs.filter acts

theorem count_draw_unturned (cs : List Command) : (unturned cs).count .draw = cs.count .draw :=
  List.count_filter rfl

end Command

/-! ## Outlines -/

/-- What a walk knows without knowing where it is. -/
structure Outline where
  /-- The segment on which the turtle stands. -/
  standsOn : Option Nat
  /-- Those on which the saved turtles stand, the innermost first. -/
  saved : List (Option Nat)
  /-- How many pushes were dropped and not closed since. -/
  dropped : Nat
  /-- How many `]` were stray. -/
  strays : Nat
  /-- The parents of the segments, in drawing order. -/
  parents : List (Option Nat)
  deriving DecidableEq, Repr

namespace Outline

/-- The outline after one more command. -/
def read (limit : Nat) (o : Outline) : Command → Outline
  | .draw =>
    { o with standsOn := some o.parents.length, parents := o.parents ++ [o.standsOn] }
  | .move => { o with standsOn := none }
  | .push =>
    if o.saved.length < limit then { o with saved := o.standsOn :: o.saved }
    else { o with dropped := o.dropped + 1 }
  | .pop =>
    match o.dropped, o.saved with
    | dropped + 1, _ => { o with dropped := dropped }
    | 0, standsOn :: saved => { o with standsOn := standsOn, saved := saved }
    | 0, [] => { o with strays := o.strays + 1 }
  | _ => o

/-- The outline after some more commands. -/
def run (limit : Nat) (cs : List Command) (o : Outline) : Outline := cs.foldl (read limit) o

/-- A command that does not act leaves the outline as it is. -/
theorem read_of_not_acts {c : Command} (h : c.acts = false) (limit : Nat) (o : Outline) :
    o.read limit c = o := by
  obtain ⟨t, rfl⟩ | rfl := Command.acts_eq_false h
  · rfl
  · rfl

theorem run_unturned (limit : Nat) (cs : List Command) (o : Outline) :
    o.run limit (Command.unturned cs) = o.run limit cs := by
  have hread : (fun (o : Outline) c => if c.acts then o.read limit c else o) = read limit := by
    funext o c
    cases hc : c.acts with
    | true => exact if_pos rfl
    | false => exact (read_of_not_acts hc limit o).symm
  rw [run, Command.unturned, List.foldl_filter, hread, run]

end Outline

namespace Walk

/-- The outline of a walk. -/
def outline (w : Walk) : Outline where
  standsOn := w.turtle.standsOn
  saved := w.saved.map Turtle.standsOn
  dropped := w.dropped
  strays := w.strays
  parents := w.strokes.toList.map Stroke.parent

theorem outline_push (limit : Nat) (w : Walk) :
    (w.push limit).outline = w.outline.read limit .push := by
  have hlength : w.outline.saved.length = w.saved.length := List.length_map ..
  by_cases hroom : w.saved.length < limit
  · rw [push_of_room hroom, Outline.read, if_pos (hlength ▸ hroom)]
    rfl
  · rw [push_of_full hroom, Outline.read, if_neg (hlength ▸ hroom)]
    rfl

theorem outline_pop (limit : Nat) (w : Walk) : w.pop.outline = w.outline.read limit .pop := by
  cases hd : w.dropped with
  | succ dropped =>
    rw [pop_of_dropped hd]
    simp [Outline.read, outline, hd]
  | zero =>
    cases hs : w.saved with
    | nil =>
      rw [pop_of_nil hd hs]
      simp [Outline.read, outline, hd, hs]
    | cons turtle saved =>
      rw [pop_of_cons hd hs]
      simp [Outline.read, outline, hd, hs]

/-- The outline behind a command follows from the one before it. -/
theorem outline_step (shape : Shape) (w : Walk) (c : Command) :
    (w.step shape c).outline = w.outline.read shape.stackLimit c := by
  cases c with
  | draw => simp [step, obey, draw, outline, Outline.read]
  | move => rfl
  | turn t => simp [step, obey, turn, outline, Outline.read]
  | push => exact outline_push shape.stackLimit w
  | pop => exact outline_pop shape.stackLimit w
  | ignore => rfl

theorem outline_run (shape : Shape) (cs : List Command) (w : Walk) :
    (w.run shape cs).outline = w.outline.run shape.stackLimit cs := by
  induction cs generalizing w with
  | nil => rfl
  | cons c cs ih => rw [run_cons, ih, outline_step, Outline.run, Outline.run, List.foldl_cons]

end Walk

/-! ## Radii -/

theorem Taper.ofCommands_unturned (cs : List Command) :
    ofCommands (Command.unturned cs) = ofCommands cs := by
  refine ofCommands_filter (fun c hc => ?_) cs
  obtain ⟨t, rfl⟩ | rfl := Command.acts_eq_false hc
  · exact ⟨Command.noConfusion, Command.noConfusion, Command.noConfusion⟩
  · exact ⟨Command.noConfusion, Command.noConfusion, Command.noConfusion⟩

/-- The radii of the segments, in drawing order. -/
def Skeleton.radii (s : Skeleton) : List (Float32 × Float32) :=
  s.segments.toList.map fun segment => (segment.baseRadius, segment.tipRadius)

/-! ## Skeletons -/

namespace Shape

variable {shape other : Shape} {cs ds : List Command}

theorem parents_skeleton (shape : Shape) (cs : List Command) :
    (shape.skeleton cs).parents = (Walk.start.run shape cs).outline.parents := by
  rw [Walk.outline, ← strokes_skeleton, Skeleton.strokes, List.map_map]
  rfl

theorem unclosed_outline (shape : Shape) (cs : List Command) :
    (shape.skeleton cs).unclosed =
      (Walk.start.run shape cs).outline.saved.length +
        (Walk.start.run shape cs).outline.dropped := by
  rw [Walk.outline, List.length_map]
  rfl

/-- Two walks along texts that differ in their turns have one outline. -/
theorem outline_congr (hcs : Command.unturned cs = Command.unturned ds)
    (hlimit : shape.stackLimit = other.stackLimit) :
    (Walk.start.run shape cs).outline = (Walk.start.run other ds).outline := by
  rw [Walk.outline_run, Walk.outline_run, hlimit, ← Outline.run_unturned, hcs,
    Outline.run_unturned]

/-- The radii of a tree come from its taper and from the radii at both ends of it.  The walk
has no part in them. -/
theorem radii_skeleton (shape : Shape) (cs : List Command) :
    (shape.skeleton cs).radii = (List.range (cs.count .draw)).map fun i =>
      (Taper.ofCommands cs).radii i shape.baseRadius shape.tipRadius := by
  apply List.ext_getElem?
  intro i
  rw [Skeleton.radii, List.getElem?_map, Array.getElem?_toList, List.getElem?_map]
  rcases Nat.lt_or_ge i (cs.count .draw) with hi | hi
  · obtain ⟨s, hs⟩ := shape.exists_thicken hi
    rw [hs, List.getElem?_range hi]
    rfl
  · have hsize : (shape.skeleton cs).segments.size ≤ i := by rwa [size_segments]
    rw [Array.getElem?_eq_none hsize, List.getElem?_eq_none (by rwa [List.length_range])]
    rfl

/-- Two texts that differ in their moves and turns have one taper. -/
theorem radii_congr
    (hcs : Command.unbroken (Command.unturned cs) = Command.unbroken (Command.unturned ds))
    (hbase : shape.baseRadius = other.baseRadius) (htip : shape.tipRadius = other.tipRadius) :
    (shape.skeleton cs).radii = (other.skeleton ds).radii := by
  have hcount : cs.count .draw = ds.count .draw := by
    rw [← Command.count_draw_unturned, ← Command.count_draw_unbroken, hcs,
      Command.count_draw_unbroken, Command.count_draw_unturned]
  have htaper : Taper.ofCommands cs = Taper.ofCommands ds := by
    rw [← Taper.ofCommands_unturned, ← Taper.ofCommands_unbroken, hcs,
      Taper.ofCommands_unbroken, Taper.ofCommands_unturned]
  rw [radii_skeleton, radii_skeleton, hcount, htaper, hbase, htip]

end Shape

/-- Two texts that draw, move, push and pop in the same order give trees that branch alike,
at the same stack limit and whatever the other measures are.  If the trees taper between the
same two radii, their segments have the same radii, and for that the moves and the stack
limits may differ, too. -/
theorem outline_decides (shape other : Shape) (text again : String) :
    let cs := Command.unturned (Command.ofText text)
    let ds := Command.unturned (Command.ofText again)
    let tree := (shape.interpret text).value
    let image := (other.interpret again).value
    (cs = ds → shape.stackLimit = other.stackLimit →
      tree.segments.size = image.segments.size ∧
        (∀ i, tree.parentOf i = image.parentOf i) ∧
        tree.strays = image.strays ∧ tree.unclosed = image.unclosed ∧
        tree.terminals = image.terminals ∧ tree.rootCount = image.rootCount) ∧
    (Command.unbroken cs = Command.unbroken ds →
      shape.baseRadius = other.baseRadius → shape.tipRadius = other.tipRadius →
      tree.radii = image.radii) := by
  intro cs ds tree image
  constructor
  · intro hcs hlimit
    have houtline := Shape.outline_congr hcs hlimit
    have hparents : tree.parents = image.parents := by
      show (shape.skeleton _).parents = (other.skeleton _).parents
      rw [Shape.parents_skeleton, Shape.parents_skeleton, houtline]
    refine ⟨?_, ?_, ?_, ?_, ?_, ?_⟩
    · rw [← Skeleton.length_parents, hparents, Skeleton.length_parents]
    · intro i
      rw [Skeleton.parentOf_eq_join, hparents, Skeleton.parentOf_eq_join]
    · exact congrArg Outline.strays houtline
    · show (shape.skeleton _).unclosed = (other.skeleton _).unclosed
      rw [Shape.unclosed_outline, Shape.unclosed_outline, houtline]
    · rw [Skeleton.terminals_eq, hparents, Skeleton.terminals_eq]
    · rw [Skeleton.rootCount_eq, hparents, Skeleton.rootCount_eq]
  · intro hcs hbase htip
    exact Shape.radii_congr hcs hbase htip

/-- Turned around, with an angle that is no number and an infinite step, a tree has the same
outline.  Without its moves and with room for no branch it has the same radii. -/
theorem outline_decides_astray :
    let astray : Shape := { Shape.slender with angle := 0 / 0, stepLength := 1 / 0 }
    let crowded : Shape := { astray with stackLimit := 0 }
    (Shape.slender.interpret "F+[fF]!F]").value.rootCount =
        (astray.interpret "|A[x^B]C*]").value.rootCount ∧
      (Shape.slender.interpret "F+[fF]!F]").value.radii =
        (crowded.interpret "A[B^]C]").value.radii := by
  intro astray crowded
  obtain ⟨-, -, -, -, -, hroots⟩ :=
    (outline_decides Shape.slender astray "F+[fF]!F]" "|A[x^B]C*]").1 (by decide) rfl
  exact ⟨hroots,
    (outline_decides Shape.slender crowded "F+[fF]!F]" "A[B^]C]").2 (by decide) rfl rfl⟩

end Arbor
