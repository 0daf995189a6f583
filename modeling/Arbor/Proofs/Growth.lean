import Arbor.Proofs.Positions
import Arbor.Proofs.Stack

/-!
# The growth of nested texts

A nested text has a meaning by recursion, without a stack and without a second
reading from the end.

* Symbols are obeyed one after the other.
* A branch grows from a copy of the turtle, and what follows it grows from the
  turtle as it was before.
* Segments are numbered as they are drawn.
* A segment is followed by as many others as the longest chain has behind it in its
  own list.

`Nested.grow` is this meaning, and `interpret_nested` says that a text is read so
when there is room for its branches.  Both readings of the text are followed along
the tree, from any stack: forwards the turtles (`Walk.AtDepth.strokes_nested`),
backwards the counters (`Nested.readBack_commands`).
-/

namespace Arbor

/-! ## The recursive meaning -/

namespace Nested

/-- The number of segments on the longest chain. -/
def length : Nested → Nat
  | nil => 0
  | symbol c rest => if c.command = .draw then rest.length + 1 else rest.length
  | branch side rest => max side.length rest.length

/-- The strokes that a nested text draws from a turtle, numbered from `n` on, each
with the number of segments that follow it. -/
def grow (shape : Shape) : Nested → Turtle → Nat → List (Stroke × Nat)
  | nil, _, _ => []
  | symbol c rest, turtle, n =>
    match c.command with
    | .draw =>
      let there := turtle.advance shape.stepLength
      (⟨turtle.position, there.position, turtle.standsOn⟩, rest.length) ::
        rest.grow shape { there with standsOn := some n } (n + 1)
    | .move => rest.grow shape { turtle.advance shape.stepLength with standsOn := none } n
    | .turn t => rest.grow shape (t.apply shape.angle turtle) n
    | _ => rest.grow shape turtle n
  | branch side rest, turtle, n =>
    let drawn := side.grow shape turtle n
    drawn ++ rest.grow shape turtle (n + drawn.length)

theorem length_draw {c : Plain} (h : c.command = .draw) (rest : Nested) :
    (symbol c rest).length = rest.length + 1 := if_pos h

theorem length_of_ne {c : Plain} (h : c.command ≠ .draw) (rest : Nested) :
    (symbol c rest).length = rest.length := if_neg h

theorem grow_draw {c : Plain} (h : c.command = .draw) (rest : Nested) (shape : Shape)
    (turtle : Turtle) (n : Nat) :
    (symbol c rest).grow shape turtle n =
      (⟨turtle.position, (turtle.advance shape.stepLength).position, turtle.standsOn⟩,
          rest.length) ::
        rest.grow shape { turtle.advance shape.stepLength with standsOn := some n } (n + 1) := by
  rw [grow, h]

/-- Any other symbol only sends the turtle on its way. -/
theorem exists_grow_of_ne {c : Plain} (h : c.command ≠ .draw) (rest : Nested) (shape : Shape)
    (turtle : Turtle) (n : Nat) :
    ∃ there, (symbol c rest).grow shape turtle n = rest.grow shape there n := by
  rw [grow]
  cases hc : c.command with
  | draw => exact absurd hc h
  | move => exact ⟨_, rfl⟩
  | turn _ => exact ⟨_, rfl⟩
  | push => exact ⟨_, rfl⟩
  | pop => exact ⟨_, rfl⟩
  | ignore => exact ⟨_, rfl⟩

end Nested

/-- The radii of a segment that some others follow, in a tree whose longest chain has
the given length. -/
def Shape.radiiBefore (shape : Shape) (length following : Nat) : Float32 × Float32 :=
  if length ≤ 1 then (shape.baseRadius, shape.baseRadius)
  else
    let position := length - 1 - following
    let step := (shape.tipRadius - shape.baseRadius) / Float32.ofNat length
    (shape.baseRadius + Float32.ofNat position * step,
      shape.baseRadius + Float32.ofNat (position + 1) * step)

/-- The segments of a nested text. -/
def Nested.segments (shape : Shape) (t : Nested) : List Segment :=
  (t.grow shape .start 0).map fun (stroke, following) =>
    stroke.thicken (shape.radiiBefore t.length following)

/-! ## Forwards -/

namespace Walk

variable {shape : Shape} {depth : Nat} {w : Walk}

theorem turtle_step_push (shape : Shape) (w : Walk) : (w.step shape .push).turtle = w.turtle := by
  show (w.push shape.stackLimit).turtle = w.turtle
  unfold push
  split <;> rfl

/-- A nested text adds the strokes that grow from the turtle, whatever the stack. -/
theorem AtDepth.strokes_nested (h : w.AtDepth shape.stackLimit depth) {t : Nested}
    (hroom : depth + t.depth ≤ shape.stackLimit) :
    (w.run shape t.commands).strokes.toList =
      w.strokes.toList ++ (t.grow shape w.turtle w.strokes.size).map Prod.fst := by
  induction t generalizing w depth with
  | nil => simp [Nested.grow]
  | symbol c rest ih =>
    have hrest := ih (h.step_plain c) hroom
    rw [Nested.commands_symbol, run_cons, hrest, Nested.grow]
    have hplain := c.command_plain
    cases hc : c.command with
    | draw => simp [Walk.step, obey, Walk.draw]
    | move => rfl
    | turn _ => rfl
    | push => exact absurd hc hplain.1
    | pop => exact absurd hc hplain.2
    | ignore => rfl
  | branch side rest ihs ihr =>
    rw [Nested.depth] at hroom
    have hwithin : depth < shape.stackLimit := by omega
    have hpush := h.step .push
    have hside := hpush.run_nested side
    have hdrawn := ihs hpush (by rw [Bracket.level_push]; omega)
    rw [turtle_step_push, strokes_step Command.noConfusion] at hdrawn
    -- What follows the branch is numbered past it.
    have hsize := congrArg List.length hdrawn
    rw [List.length_append, List.length_map, Array.length_toList, Array.length_toList] at hsize
    have hrest := ihr (h.backTo hwithin hside) (by omega)
    rw [Nested.commands_branch, h.run_branch hwithin, hrest, Nested.grow]
    simp only [Walk.backTo, hdrawn, hsize, List.map_append, List.append_assoc]

end Walk

/-! ## Backwards -/

namespace Taper

/-- Reads some commands before those already read, with some branches open before
them. -/
def readBack (depth : Nat) (cs : List Command) (b : Backward) : Backward :=
  (cs.zip (Bracket.flags depth cs)).foldr Backward.read b

@[simp] theorem readBack_nil (depth : Nat) (b : Backward) : readBack depth [] b = b := rfl

@[simp] theorem readBack_cons (depth : Nat) (c : Command) (cs : List Command) (b : Backward) :
    readBack depth (c :: cs) b =
      (readBack (Bracket.level depth c) cs b).read (c, Bracket.isStray depth c) := rfl

theorem readBack_append (depth : Nat) (cs ds : List Command) (b : Backward) :
    readBack depth (cs ++ ds) b =
      readBack depth cs (readBack (cs.foldl Bracket.level depth) ds b) := by
  induction cs generalizing depth with
  | nil => rfl
  | cons c cs ih => simp [ih]

theorem backward_eq_readBack (cs : List Command) : backward cs = readBack 0 cs ⟨0, [], []⟩ :=
  backward_eq cs

theorem read_pop (b : Backward) :
    b.read (.pop, false) = ⟨0, b.following :: b.saved, b.depths⟩ := rfl

end Taper

namespace Nested

/-- Read from its end, a nested text has its longest chain before it, and its
segments the depths that the recursion gives them. -/
theorem readBack_commands (shape : Shape) (t : Nested) (turtle : Turtle) (n depth : Nat)
    (saved depths : List Nat) :
    Taper.readBack depth t.commands ⟨0, saved, depths⟩ =
      ⟨t.length, saved, (t.grow shape turtle n).map Prod.snd ++ depths⟩ := by
  induction t generalizing turtle n depth saved depths with
  | nil => rfl
  | symbol c rest ih =>
    rw [commands_symbol, Taper.readBack_cons]
    by_cases hc : c.command = .draw
    · rw [length_draw hc, grow_draw hc, hc, ih _ (n + 1)]
      rfl
    · obtain ⟨there, hthere⟩ := exists_grow_of_ne hc rest shape turtle n
      rw [length_of_ne hc, hthere, ih there n, Taper.read_of_plain hc c.command_plain]
  | branch side rest ihs ihr =>
    have hstray : Bracket.isStray (Bracket.level depth .push) .pop = false := rfl
    -- From the end the rest comes first, and its length is saved while the branch is read.
    rw [commands_branch, Taper.readBack_cons, Taper.readBack_append, Taper.readBack_cons,
      level_commands, ihr turtle (n + (side.grow shape turtle n).length), hstray, Taper.read_pop,
      ihs turtle n, grow]
    simp [Taper.Backward.read, length]

/-! ## The taper of a nested text -/

/-- No segment is followed by the whole of the longest chain. -/
theorem lt_length {shape : Shape} {t : Nested} {turtle : Turtle} {n following : Nat}
    (h : following ∈ (t.grow shape turtle n).map Prod.snd) : following < t.length := by
  induction t generalizing turtle n with
  | nil => cases h
  | symbol c rest ih =>
    by_cases hc : c.command = .draw
    · rw [grow_draw hc, List.map_cons] at h
      rw [length_draw hc]
      rcases List.mem_cons.mp h with rfl | h
      · exact Nat.lt_succ_self _
      · exact Nat.lt_succ_of_lt (ih h)
    · obtain ⟨there, hthere⟩ := exists_grow_of_ne hc rest shape turtle n
      rw [hthere] at h
      rw [length_of_ne hc]
      exact ih h
  | branch side rest ihs ihr =>
    rw [grow, List.map_append] at h
    rcases List.mem_append.mp h with h | h
    · exact Nat.lt_of_lt_of_le (ihs h) (Nat.le_max_left ..)
    · exact Nat.lt_of_lt_of_le (ihr h) (Nat.le_max_right ..)

/-- The first segment of the longest chain is followed by the rest of it. -/
theorem mem_of_length {shape : Shape} {t : Nested} {turtle : Turtle} {n following : Nat}
    (h : t.length = following + 1) : following ∈ (t.grow shape turtle n).map Prod.snd := by
  induction t generalizing turtle n with
  | nil => cases h
  | symbol c rest ih =>
    by_cases hc : c.command = .draw
    · rw [length_draw hc] at h
      rw [grow_draw hc, ← Nat.succ.inj h]
      exact List.mem_cons_self
    · obtain ⟨there, hthere⟩ := exists_grow_of_ne hc rest shape turtle n
      rw [length_of_ne hc] at h
      rw [hthere]
      exact ih h
  | branch side rest ihs ihr =>
    rw [length] at h
    rw [grow, List.map_append, List.mem_append]
    rcases Nat.le_total side.length rest.length with hle | hle
    · rw [Nat.max_eq_right hle] at h
      exact .inr (ihr h)
    · rw [Nat.max_eq_left hle] at h
      exact .inl (ihs h)

end Nested

/-- The depths of a taper are below its length, and the largest of them is the one
right below. -/
theorem Taper.length_ofDepths_eq {depths : List Nat} {length : Nat}
    (hlt : ∀ d ∈ depths, d < length) (hmem : ∀ d, length = d + 1 → d ∈ depths) :
    (ofDepths depths).length = length := by
  cases hd : depths with
  | nil =>
    cases length with
    | zero => rfl
    | succ d =>
      have hnone := hmem d rfl
      rw [hd] at hnone
      cases hnone
  | cons e rest =>
    rw [← hd]
    have hne : depths ≠ [] := by
      rw [hd]
      exact List.cons_ne_nil e rest
    have hmax := hlt _ (foldl_max_mem hne)
    have hlength : (ofDepths depths).length = depths.foldl max 0 + 1 := by
      rw [hd]
      rfl
    have hle := le_foldl_max (hmem (length - 1) (by omega))
    omega

/-- The recursion finds the longest chain. -/
theorem Nested.length_ofDepths (shape : Shape) (t : Nested) (turtle : Turtle) (n : Nat) :
    (Taper.ofDepths ((t.grow shape turtle n).map Prod.snd)).length = t.length :=
  Taper.length_ofDepths_eq (fun _ => lt_length) fun _ => mem_of_length

/-! ## The whole text -/

theorem Shape.radii_eq {shape : Shape} {taper : Taper} {i position following : Nat}
    (hposition : taper.positions[i]? = some position)
    (hsum : position + following + 1 = taper.length) :
    taper.radii i shape.baseRadius shape.tipRadius =
      shape.radiiBefore taper.length following := by
  have heq : taper.length - 1 - following = position := by omega
  rw [Taper.radii, hposition, radiiBefore, heq]

namespace Nested

theorem depths_commands (shape : Shape) (t : Nested) :
    (Taper.backward t.commands).depths = (t.grow shape .start 0).map Prod.snd := by
  rw [Taper.backward_eq_readBack, t.readBack_commands shape .start 0, List.append_nil]

theorem strokes_commands {shape : Shape} {t : Nested} (h : t.depth ≤ shape.stackLimit) :
    (Walk.start.run shape t.commands).strokes.toList =
      (t.grow shape .start 0).map Prod.fst := by
  rw [(Walk.atDepth_start shape.stackLimit).strokes_nested (by omega)]
  rfl

theorem segments_skeleton {shape : Shape} {t : Nested} (h : t.depth ≤ shape.stackLimit) :
    (shape.skeleton t.commands).segments = (t.segments shape).toArray := by
  apply Array.ext_getElem?
  intro i
  rw [Shape.getElem?_segments, ← Array.getElem?_toList, strokes_commands h, segments,
    List.getElem?_toArray, List.getElem?_map, List.getElem?_map, Option.map_map]
  cases hi : (t.grow shape .start 0)[i]? with
  | none => rfl
  | some entry =>
    obtain ⟨stroke, following⟩ := entry
    have hdepth : ((t.grow shape .start 0).map Prod.snd)[i]? = some following := by
      rw [List.getElem?_map, hi]
      rfl
    have hlength : (Taper.ofCommands t.commands).length = t.length := by
      rw [Taper.ofCommands, depths_commands shape, length_ofDepths]
    rw [← depths_commands] at hdepth
    obtain ⟨position, hposition, hsum⟩ := Taper.exists_position_of_depth hdepth
    rw [← hlength, Option.map_some, Option.map_some, Function.comp_apply,
      Shape.radii_eq hposition hsum]

end Nested

/-- A nested text with room for its branches has the segments of its recursive
meaning, and no bracket without a partner.  The depth of a segment in the taper is
the number of segments that follow it in its own list. -/
theorem interpret_nested (shape : Shape) (t : Nested) (h : t.depth ≤ shape.stackLimit) :
    (shape.interpret t.text).value = ⟨(t.segments shape).toArray, 0, 0⟩ ∧
      (Taper.backward (Command.ofText t.text)).depths =
        (t.grow shape .start 0).map Prod.snd := by
  rw [Shape.value_interpret, t.ofText_text]
  refine ⟨Skeleton.ext (Nested.segments_skeleton h) ?_ ?_, t.depths_commands shape⟩
  · rw [Shape.strays_skeleton, t.count_flags]
  · rw [Shape.unclosed_skeleton, t.level_commands]

/-- Two branches, one within the other, with as much room as they need. -/
theorem interpret_nested_fork :
    let f : Plain := ⟨'F', by decide⟩
    let t : Nested := .symbol f (.branch (.symbol ⟨'+', by decide⟩ (.branch (.symbol f .nil)
      (.symbol f (.symbol f .nil)))) (.symbol f .nil))
    t.text = "F[+[F]FF]F" ∧ t.depth ≤ { Shape.slender with stackLimit := 2 }.stackLimit ∧
      ({ Shape.slender with stackLimit := 2 }.interpret t.text).value =
        ⟨(t.segments { Shape.slender with stackLimit := 2 }).toArray, 0, 0⟩ :=
  ⟨by decide, by decide, (interpret_nested { Shape.slender with stackLimit := 2 } _ (by decide)).1⟩

end Arbor
