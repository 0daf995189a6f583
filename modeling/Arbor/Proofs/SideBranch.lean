import Arbor.Proofs.Footing
import Arbor.Proofs.Growth

/-!
# Side branches

A branch that is closed again, with room for its `[`, changes nothing for the rest
of the text.

*Forwards.*  Behind the `]` the turtle and the stack are what they were before the
`[`, and only strokes were added.  From there on the rest of the text draws the
same strokes as without the branch, and its links skip the strokes added
(`Walk.Grafted`).

*Backwards.*  A branch without a drawing command leaves every counter as it is
(`Nested.readBack_bare`), so then the radii are the same, too.
-/

namespace Arbor

/-! ## Links that skip a branch -/

/-- The number of a segment when some others are put in at a place. -/
def shift (place count i : Nat) : Nat := if i < place then i else i + count

theorem shift_of_lt {place count i : Nat} (h : i < place) : shift place count i = i := if_pos h

theorem shift_of_le {place count i : Nat} (h : place ≤ i) : shift place count i = i + count :=
  if_neg (Nat.not_lt.mpr h)

theorem shift_zero (place i : Nat) : shift place 0 i = i := by
  unfold shift
  split <;> rfl

/-- The numbers of the segments put in are left out. -/
theorem shift_apart (place count i : Nat) :
    shift place count i < place ∨ place + count ≤ shift place count i := by
  unfold shift
  split <;> omega

/-- The turtle on the segment that has the number now. -/
def Turtle.shift (place count : Nat) (t : Turtle) : Turtle :=
  { t with standsOn := t.standsOn.map (Arbor.shift place count) }

/-- The stroke with the number that its parent has now. -/
def Stroke.shift (place count : Nat) (s : Stroke) : Stroke :=
  { s with parent := s.parent.map (Arbor.shift place count) }

theorem Stroke.shift_zero (place : Nat) (s : Stroke) : s.shift place 0 = s := by
  have hid : Arbor.shift place 0 = id := funext (Arbor.shift_zero place)
  rw [Stroke.shift, hid, Option.map_id]
  rfl

theorem Turtle.apply_shift (place count : Nat) (t : Turtle) (angle : Float32) (u : Turn) :
    u.apply angle (t.shift place count) = (u.apply angle t).shift place count := by
  cases u <;> rfl

/-- A turtle that stands before the place does not notice. -/
theorem Turtle.shift_of_footed {strokes : Array Stroke} {t : Turtle} (h : t.Footed strokes)
    (count : Nat) : t.shift strokes.size count = t := by
  cases hk : t.standsOn with
  | none =>
    rw [Turtle.shift, hk, Option.map_none, ← hk]
  | some k =>
    obtain ⟨s, hs, -⟩ := h k hk
    have hlt := (Array.getElem?_eq_some_iff.mp hs).1
    rw [Turtle.shift, hk, Option.map_some, shift_of_lt hlt, ← hk]

/-! ## Forwards -/

namespace Walk

/-- Only the strokes of a branch tell the second walk from the first one. -/
structure Grafted (before side : List Stroke) (w v : Walk) : Prop where
  turtle : v.turtle = w.turtle.shift before.length side.length
  saved : v.saved = w.saved.map (Turtle.shift before.length side.length)
  dropped : v.dropped = w.dropped
  strays : v.strays = w.strays
  strokes : ∃ after, w.strokes.toList = before ++ after ∧
    v.strokes.toList = before ++ side ++ after.map (Stroke.shift before.length side.length)

variable {before side : List Stroke} {w v : Walk}

theorem Grafted.draw (h : w.Grafted before side v) (shape : Shape) :
    (w.step shape .draw).Grafted before side (v.step shape .draw) := by
  obtain ⟨hturtle, hsaved, hdropped, hstrays, after, hw, hv⟩ := h
  have hsize : w.strokes.size = before.length + after.length := by
    rw [← Array.length_toList, hw, List.length_append]
  have hsize' : v.strokes.size = w.strokes.size + side.length := by
    rw [← Array.length_toList, hv, hsize, List.length_append, List.length_append, List.length_map]
    omega
  refine ⟨?_, hsaved, hdropped, hstrays, after ++ [w.stroke shape], ?_, ?_⟩
  · have hnumber : shift before.length side.length w.strokes.size = v.strokes.size := by
      rw [shift_of_le (by omega), hsize']
    simp only [step, obey, Walk.draw, hturtle, Turtle.shift, Option.map_some, hnumber]
    rfl
  · rw [strokes_step_draw, Array.toList_push, hw, List.append_assoc]
  · have hstroke : v.stroke shape = (w.stroke shape).shift before.length side.length := by
      rw [stroke, hturtle]
      rfl
    rw [strokes_step_draw, Array.toList_push, hv, hstroke]
    simp

theorem Grafted.push (h : w.Grafted before side v) (limit : Nat) :
    (w.push limit).Grafted before side (v.push limit) := by
  obtain ⟨hturtle, hsaved, hdropped, hstrays, hstrokes⟩ := h
  have hlength : v.saved.length = w.saved.length := by
    rw [hsaved, List.length_map]
  by_cases hroom : w.saved.length < limit
  · rw [push_of_room hroom, push_of_room (hlength ▸ hroom)]
    exact ⟨hturtle, by simp [hturtle, hsaved], hdropped, hstrays, hstrokes⟩
  · rw [push_of_full hroom, push_of_full (hlength ▸ hroom)]
    exact ⟨hturtle, hsaved, by simp [hdropped], hstrays, hstrokes⟩

theorem Grafted.pop (h : w.Grafted before side v) : w.pop.Grafted before side v.pop := by
  obtain ⟨hturtle, hsaved, hdropped, hstrays, hstrokes⟩ := h
  cases hd : w.dropped with
  | succ dropped =>
    rw [pop_of_dropped hd, pop_of_dropped (hdropped.trans hd)]
    exact ⟨hturtle, hsaved, rfl, hstrays, hstrokes⟩
  | zero =>
    cases hs : w.saved with
    | nil =>
      rw [hs, List.map_nil] at hsaved
      rw [pop_of_nil hd hs, pop_of_nil (hdropped.trans hd) hsaved]
      exact ⟨hturtle, by simp [hsaved, hs], hdropped, by simp [hstrays], hstrokes⟩
    | cons turtle saved =>
      rw [hs, List.map_cons] at hsaved
      rw [pop_of_cons hd hs, pop_of_cons (hdropped.trans hd) hsaved]
      exact ⟨rfl, rfl, hdropped, hstrays, hstrokes⟩

/-- One command keeps the branch apart. -/
theorem Grafted.step (h : w.Grafted before side v) (shape : Shape) (c : Command) :
    (w.step shape c).Grafted before side (v.step shape c) := by
  cases c with
  | draw => exact h.draw shape
  | move =>
    refine ⟨?_, h.saved, h.dropped, h.strays, h.strokes⟩
    simp only [Walk.step, obey, move, h.turtle]
    rfl
  | turn u =>
    refine ⟨?_, h.saved, h.dropped, h.strays, h.strokes⟩
    simp only [Walk.step, obey, turn, h.turtle, Turtle.apply_shift]
  | push =>
    obtain ⟨hturtle, hsaved, hdropped, hstrays, hstrokes⟩ := h.push shape.stackLimit
    exact ⟨hturtle, hsaved, hdropped, hstrays, hstrokes⟩
  | pop =>
    obtain ⟨hturtle, hsaved, hdropped, hstrays, hstrokes⟩ := h.pop
    exact ⟨hturtle, hsaved, hdropped, hstrays, hstrokes⟩
  | ignore => exact ⟨h.turtle, h.saved, h.dropped, h.strays, h.strokes⟩

theorem Grafted.run (h : w.Grafted before side v) (shape : Shape) (cs : List Command) :
    (w.run shape cs).Grafted before side (v.run shape cs) := by
  induction cs generalizing w v with
  | nil => exact h
  | cons c cs ih => exact ih (h.step shape c)

/-- Behind a branch with room for it a walk goes on as before the branch. -/
theorem AtDepth.grafted_branch {shape : Shape} {depth : Nat} (h : w.AtDepth shape.stackLimit depth)
    (hroom : depth < shape.stackLimit) (hf : w.Footed) (t : Nested) :
    ∃ side, side.length = t.commands.count .draw ∧ w.Grafted w.strokes.toList side
      (((w.step shape .push).run shape t.commands).backTo w) := by
  have hpush := h.step .push
  have hback := h.backTo hroom (hpush.run_nested t)
  obtain ⟨side, hside, hlength⟩ := exists_strokes_run shape t.commands (w.step shape .push)
  rw [strokes_step Command.noConfusion] at hside
  -- No turtle before the branch stands on a segment of it.
  have hstay : ∀ u ∈ w.turtles, u.shift w.strokes.toList.length side.length = u := by
    intro u hu
    rw [Array.length_toList]
    exact Turtle.shift_of_footed (hf u hu) side.length
  refine ⟨side, hlength, ?_, ?_, hback.dropped.trans h.dropped.symm, ?_, [], ?_, ?_⟩
  · exact (hstay w.turtle List.mem_cons_self).symm
  · have hmap := List.map_congr_left fun u hu => hstay u (List.mem_cons_of_mem _ hu)
    rw [List.map_id'] at hmap
    exact hmap.symm
  · show ((w.step shape .push).run shape t.commands).strays = w.strays
    rw [hpush.strays_run, t.count_flags, h.strays_step]
    rfl
  · rw [List.append_nil]
  · rw [List.map_nil, List.append_nil]
    exact hside

end Walk

/-! ## Backwards -/

namespace Nested

theorem length_of_bare {t : Nested} (h : .draw ∉ t.commands) : t.length = 0 := by
  induction t with
  | nil => rfl
  | symbol c rest ih =>
    rw [commands_symbol, List.mem_cons, not_or] at h
    rw [length_of_ne (Ne.symm h.1), ih h.2]
  | branch side rest ihs ihr =>
    rw [commands_branch, List.mem_cons, List.mem_append, List.mem_cons] at h
    simp only [not_or] at h
    rw [length, ihs h.2.1, ihr h.2.2.2]
    rfl

/-- A branch without a drawing command leaves every counter as it is. -/
theorem readBack_bare {t : Nested} (h : .draw ∉ t.commands) (depth : Nat) (cs : List Command)
    (b : Taper.Backward) :
    Taper.readBack depth (.push :: (t.commands ++ .pop :: cs)) b = Taper.readBack depth cs b := by
  have hlength := length_of_bare h
  have hgrow : (t.grow default .start 0).map Prod.snd = [] := by
    refine List.eq_nil_iff_forall_not_mem.mpr fun following hmem => ?_
    have hlt := lt_length hmem
    omega
  have hstray : Bracket.isStray (Bracket.level depth .push) .pop = false := rfl
  have hlevel : Bracket.level (Bracket.level depth .push) .pop = depth := rfl
  rw [Taper.readBack_cons, Taper.readBack_append, Taper.readBack_cons, level_commands, hstray,
    hlevel, Taper.read_pop, t.readBack_commands default .start 0, hlength, hgrow]
  simp [Taper.Backward.read]

end Nested

/-- A branch without a drawing command has no part in the taper. -/
theorem Taper.ofCommands_bare {t : Nested} (h : .draw ∉ t.commands) (us vs : List Command) :
    ofCommands (us ++ .push :: (t.commands ++ .pop :: vs)) = ofCommands (us ++ vs) := by
  rw [ofCommands, ofCommands, backward_eq_readBack, backward_eq_readBack, readBack_append,
    readBack_append, Nested.readBack_bare h]

/-! ## The rest of a text -/

/-- The parent of a segment is that of its stroke. -/
theorem Skeleton.parentOf_eq (s : Skeleton) (i : Nat) :
    s.parentOf i = s.strokes[i]?.bind Stroke.parent := by
  rw [parentOf, strokes, List.getElem?_map, Array.getElem?_toList, Option.bind_map]
  rfl

/-- Links behind the segments put in skip them. -/
theorem Skeleton.parent_apart {drawn rest : Skeleton} {before side : Nat}
    (hdrop : drawn.strokes.drop (before + side) =
      (rest.strokes.drop before).map (Stroke.shift before side))
    {i p : Nat} (hi : before + side ≤ i) (hp : drawn.parentOf i = some p) :
    p < before ∨ before + side ≤ p := by
  obtain ⟨k, rfl⟩ := Nat.exists_eq_add_of_le hi
  rw [parentOf_eq, ← List.getElem?_drop, hdrop, List.getElem?_map] at hp
  obtain ⟨s, hs, hparent⟩ := Option.bind_eq_some_iff.mp hp
  obtain ⟨s, -, rfl⟩ := Option.map_eq_some_iff.mp hs
  obtain ⟨q, -, rfl⟩ := Option.map_eq_some_iff.mp hparent
  exact shift_apart before side q

/-- A branch adds its strokes between those before it and those behind it, and has no
part in the accounts. -/
theorem Shape.skeleton_branch {shape : Shape} {us : List Command}
    (hroom : us.foldl Bracket.level 0 < shape.stackLimit) (t : Nested) (vs : List Command) :
    let drawn := shape.skeleton (us ++ .push :: (t.commands ++ .pop :: vs))
    let rest := shape.skeleton (us ++ vs)
    let before := us.count .draw
    let side := t.commands.count .draw
    drawn.strokes.take before = rest.strokes.take before ∧
      drawn.strokes.drop (before + side) =
        (rest.strokes.drop before).map (Stroke.shift before side) ∧
      drawn.strays = rest.strays ∧ drawn.unclosed = rest.unclosed := by
  intro drawn rest before side
  have hw := (Walk.atDepth_start shape.stackLimit).run us
  have hf := Walk.footed_start.run shape us
  obtain ⟨branch, hbranch, hgrafted⟩ := hw.grafted_branch hroom hf t
  obtain ⟨-, hsaved, hdropped, hstrays, after, hrest, hdrawn⟩ := hgrafted.run shape vs
  rw [← hw.run_branch hroom, ← Walk.run_append] at hsaved hdropped hstrays hdrawn
  rw [← Walk.run_append] at hsaved hdropped hstrays hrest
  have hbefore : (Walk.start.run shape us).strokes.toList.length = before := by
    rw [Array.length_toList, Walk.size_strokes_run]
    exact Nat.zero_add _
  rw [hbefore, hbranch] at hdrawn
  generalize (Walk.start.run shape us).strokes.toList = first at hrest hdrawn hbefore
  have hrest : rest.strokes = first ++ after := (strokes_skeleton shape _).trans hrest
  have hdrawn : drawn.strokes = first ++ branch ++ after.map (Stroke.shift before side) :=
    (strokes_skeleton shape _).trans hdrawn
  refine ⟨?_, ?_, hstrays, ?_⟩
  · rw [hrest, hdrawn, ← hbefore, List.append_assoc, List.take_left, List.take_left]
  · have hsum : before + side = (first ++ branch).length := by
      rw [List.length_append, hbefore, hbranch]
    rw [hrest, hdrawn, hsum, List.drop_left, ← hbefore, List.drop_left]
  · show Walk.unclosed _ = Walk.unclosed _
    rw [Walk.unclosed, Walk.unclosed, hsaved, List.length_map, hdropped]

/-- A branch without a drawing command changes nothing. -/
theorem Shape.skeleton_bare {shape : Shape} {us : List Command}
    (hroom : us.foldl Bracket.level 0 < shape.stackLimit) {t : Nested}
    (hbare : .draw ∉ t.commands) (vs : List Command) :
    shape.skeleton (us ++ .push :: (t.commands ++ .pop :: vs)) = shape.skeleton (us ++ vs) := by
  obtain ⟨htake, hdrop, hstrays, hunclosed⟩ := skeleton_branch hroom t vs
  have htaper := Taper.ofCommands_bare hbare us vs
  rw [List.count_eq_zero.mpr hbare, Nat.add_zero, funext (Stroke.shift_zero _),
    List.map_id'] at hdrop
  generalize us ++ .push :: (t.commands ++ .pop :: vs) = cs at htake hdrop hstrays hunclosed htaper
  generalize us ++ vs = ds at htake hdrop hstrays hunclosed htaper
  have hstrokes : (shape.skeleton cs).strokes = (shape.skeleton ds).strokes := by
    rw [← List.take_append_drop (us.count .draw) (shape.skeleton cs).strokes, htake, hdrop,
      List.take_append_drop]
  exact Skeleton.ext (segments_congr hstrokes htaper) hstrays hunclosed

/-- A branch that is closed again, with room for its `[`, only adds its own segments.
Before it all segments are the same.  Behind it they are the same but for radii, and
no parent is in the branch: links skip the segments added.  Strays and open
branches are the same.  A branch that draws nothing changes nothing at all. -/
theorem side_branch_apart (shape : Shape) (u b v : String)
    (hb : Bracket.WellBracketed b.toList)
    (hroom : Bracket.openAtEnd (Command.ofText u) < shape.stackLimit) :
    let drawn := (shape.interpret (u ++ "[" ++ b ++ "]" ++ v)).value
    let rest := (shape.interpret (u ++ v)).value
    let before := u.toList.countP Char.isUpper
    let side := b.toList.countP Char.isUpper
    drawn.segments.size = rest.segments.size + side ∧
      drawn.strokes.take before = rest.strokes.take before ∧
      drawn.strokes.drop (before + side) =
        (rest.strokes.drop before).map (Stroke.shift before side) ∧
      (∀ i p, before + side ≤ i → drawn.parentOf i = some p →
        p < before ∨ before + side ≤ p) ∧
      drawn.strays = rest.strays ∧ drawn.unclosed = rest.unclosed ∧
      ((∀ c ∈ b.toList, c.isUpper = false) → drawn = rest) := by
  obtain ⟨t, ht⟩ := hb
  have hcommands : Command.ofText b = t.commands := by
    rw [Command.ofText, ← ht, Nested.commands]
  have htext : Command.ofText (u ++ "[" ++ b ++ "]" ++ v) =
      Command.ofText u ++ .push :: (t.commands ++ .pop :: Command.ofText v) := by
    rw [← hcommands]
    simp [Command.ofText]
  rw [Shape.value_interpret, Shape.value_interpret, htext, Command.ofText_append]
  rw [Bracket.openAtEnd_eq] at hroom
  intro drawn rest before side
  have hbefore : (Command.ofText u).count .draw = before := Command.count_draw_ofText u
  have hside : t.commands.count .draw = side := by
    rw [← hcommands]
    exact Command.count_draw_ofText b
  obtain ⟨htake, hdrop, hstrays, hunclosed⟩ := Shape.skeleton_branch hroom t (Command.ofText v)
  rw [hbefore] at htake hdrop
  rw [hside] at hdrop
  refine ⟨?_, htake, hdrop, fun i p => Skeleton.parent_apart hdrop, hstrays, hunclosed, ?_⟩
  · show (shape.skeleton _).segments.size = (shape.skeleton _).segments.size + side
    rw [Shape.size_segments, Shape.size_segments, ← hside]
    simp only [List.count_append, List.count_cons_of_ne, ne_eq, reduceCtorEq, not_false_eq_true]
    omega
  · intro hnone
    have hbare : .draw ∉ t.commands := by
      rw [← List.count_eq_zero, hside]
      exact List.countP_eq_zero.mpr (by simpa using hnone)
    exact Shape.skeleton_bare hroom hbare _

/-- A branch of one segment and a dropped branch, between open and stray brackets. -/
theorem side_branch_apart_crowded :
    let shape : Shape := { Shape.slender with stackLimit := 2 }
    Bracket.WellBracketed "+F[F]".toList ∧
      Bracket.openAtEnd (Command.ofText "]F[F") < shape.stackLimit ∧
      (shape.interpret ("]F[F" ++ "[" ++ "+F[F]" ++ "]" ++ "F]]F")).value.strokes.drop 4 =
        ((shape.interpret ("]F[F" ++ "F]]F")).value.strokes.drop 2).map (Stroke.shift 2 2) :=
  ⟨by decide, by decide, (side_branch_apart { Shape.slender with stackLimit := 2 } "]F[F" "+F[F]"
    "F]]F" (by decide) (by decide)).2.2.1⟩

end Arbor
