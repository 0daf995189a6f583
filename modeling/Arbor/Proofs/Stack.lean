import Arbor.Proofs.Nested
import Arbor.Proofs.Strokes

/-!
# The stack of a walk

How many turtles a walk has saved and how many pushes it has dropped depends only
on the number of branches open and on the limit: the outer branches are saved, and
those for which there is no room are dropped (`Walk.AtDepth`).  A stray `]` is one
that is read with no branch open, whatever the limit (`Walk.AtDepth.strays_run`).

*Nested texts.*  After a nested text the stack is what it was before.  A branch with
room for its own `[` brings the turtle back, too, also where branches within it are
dropped (`Walk.AtDepth.run_branch`).
-/

namespace Arbor

namespace Walk

/-! ## Saved and dropped branches -/

/-- With some branches open the outer ones are saved, up to the limit, and the
others are dropped. -/
structure AtDepth (limit depth : Nat) (w : Walk) : Prop where
  /-- The outer branches are saved. -/
  saved : w.saved.length = min depth limit
  /-- The inner ones are dropped. -/
  dropped : w.dropped = depth - limit

theorem atDepth_start (limit : Nat) : start.AtDepth limit 0 := by
  constructor <;> simp [start]

variable {limit depth : Nat} {w : Walk}

theorem AtDepth.room_iff (h : w.AtDepth limit depth) : w.saved.length < limit ↔ depth < limit := by
  rw [h.saved]
  omega

theorem AtDepth.push_within (h : w.AtDepth limit depth) (hroom : depth < limit) :
    w.push limit = { w with saved := w.turtle :: w.saved } :=
  push_of_room (h.room_iff.mpr hroom)

theorem AtDepth.push_beyond (h : w.AtDepth limit depth) (hfull : limit ≤ depth) :
    w.push limit = { w with
      dropped := w.dropped + 1
      warnings := w.warnings.push (.pushDropped limit w.position) } :=
  push_of_full (mt h.room_iff.mp (Nat.not_lt.mpr hfull))

theorem AtDepth.pop_stray (h : w.AtDepth limit 0) :
    w.pop = { w with
      strays := w.strays + 1, warnings := w.warnings.push (.popUnderflow w.position) } := by
  have hsaved := h.saved
  rw [Nat.zero_min, List.length_eq_zero_iff] at hsaved
  exact pop_of_nil (h.dropped.trans (Nat.zero_sub limit)) hsaved

theorem AtDepth.pop_within (h : w.AtDepth limit (depth + 1)) (hroom : depth < limit) :
    ∃ turtle saved, w.saved = turtle :: saved ∧
      w.pop = { w with turtle := turtle, saved := saved } := by
  have hsaved := h.saved
  cases hs : w.saved with
  | nil =>
    rw [hs, List.length_nil] at hsaved
    omega
  | cons turtle saved =>
    have hdropped : w.dropped = 0 := by
      rw [h.dropped]
      omega
    exact ⟨turtle, saved, rfl, pop_of_cons hdropped hs⟩

theorem AtDepth.pop_beyond (h : w.AtDepth limit (depth + 1)) (hfull : limit ≤ depth) :
    w.pop = { w with dropped := depth - limit } := by
  apply pop_of_dropped
  rw [h.dropped]
  omega

theorem AtDepth.push (h : w.AtDepth limit depth) : (w.push limit).AtDepth limit (depth + 1) := by
  have hsaved := h.saved
  have hdropped := h.dropped
  by_cases hroom : depth < limit
  · rw [h.push_within hroom]
    constructor
    · show w.saved.length + 1 = _
      omega
    · show w.dropped = _
      omega
  · rw [h.push_beyond (Nat.not_lt.mp hroom)]
    constructor
    · show w.saved.length = _
      omega
    · show w.dropped + 1 = _
      omega

theorem AtDepth.pop (h : w.AtDepth limit depth) : w.pop.AtDepth limit (depth - 1) := by
  have hsaved := h.saved
  have hdropped := h.dropped
  cases depth with
  | zero =>
    rw [h.pop_stray]
    exact ⟨hsaved, hdropped⟩
  | succ depth =>
    by_cases hroom : depth < limit
    · obtain ⟨turtle, saved, hs, hpop⟩ := h.pop_within hroom
      rw [hs, List.length_cons] at hsaved
      rw [hpop]
      constructor
      · show saved.length = _
        omega
      · show w.dropped = _
        omega
    · rw [h.pop_beyond (Nat.not_lt.mp hroom)]
      refine ⟨?_, rfl⟩
      show w.saved.length = _
      omega

variable {shape : Shape}

/-- One command keeps the stack in step with the branches open. -/
theorem AtDepth.step (h : w.AtDepth shape.stackLimit depth) (c : Command) :
    (w.step shape c).AtDepth shape.stackLimit (Bracket.level depth c) := by
  cases c with
  | draw => exact ⟨h.saved, h.dropped⟩
  | move => exact ⟨h.saved, h.dropped⟩
  | turn _ => exact ⟨h.saved, h.dropped⟩
  | push => exact ⟨h.push.saved, h.push.dropped⟩
  | pop => exact ⟨h.pop.saved, h.pop.dropped⟩
  | ignore => exact ⟨h.saved, h.dropped⟩

theorem AtDepth.run (h : w.AtDepth shape.stackLimit depth) (cs : List Command) :
    (w.run shape cs).AtDepth shape.stackLimit (cs.foldl Bracket.level depth) := by
  induction cs generalizing w depth with
  | nil => exact h
  | cons c cs ih => exact ih (h.step c)

/-- A walk knows how many branches are open. -/
theorem AtDepth.unclosed_eq (h : w.AtDepth limit depth) : w.unclosed = depth := by
  rw [unclosed, h.saved, h.dropped]
  omega

theorem strays_push (limit : Nat) (w : Walk) : (w.push limit).strays = w.strays := by
  unfold Walk.push
  split <;> rfl

/-- A walk counts a stray bracket where a reading flags one. -/
theorem AtDepth.strays_step (h : w.AtDepth shape.stackLimit depth) (c : Command) :
    (w.step shape c).strays = w.strays + (Bracket.isStray depth c).toNat := by
  cases c with
  | draw => rfl
  | move => rfl
  | turn _ => rfl
  | push => exact strays_push _ w
  | pop =>
    show w.pop.strays = _
    cases depth with
    | zero =>
      rw [h.pop_stray]
      rfl
    | succ depth =>
      by_cases hroom : depth < shape.stackLimit
      · obtain ⟨turtle, saved, -, hpop⟩ := h.pop_within hroom
        rw [hpop]
        rfl
      · rw [h.pop_beyond (Nat.not_lt.mp hroom)]
        rfl
  | ignore => rfl

theorem AtDepth.strays_run (h : w.AtDepth shape.stackLimit depth) (cs : List Command) :
    (w.run shape cs).strays = w.strays + (Bracket.flags depth cs).count true := by
  induction cs generalizing w depth with
  | nil => rfl
  | cons c cs ih =>
    rw [run_cons, ih (h.step c), h.strays_step, Bracket.count_flags_cons]
    omega

/-! ## Nested texts -/

theorem saved_step_of_plain {c : Command} (hc : c ≠ .push ∧ c ≠ .pop) (w : Walk) :
    (w.step shape c).saved = w.saved := by
  cases c with
  | push => exact absurd rfl hc.1
  | pop => exact absurd rfl hc.2
  | draw => rfl
  | move => rfl
  | turn _ => rfl
  | ignore => rfl

theorem AtDepth.step_plain (h : w.AtDepth shape.stackLimit depth) (c : Plain) :
    (w.step shape c.command).AtDepth shape.stackLimit depth := by
  have hstep := h.step c.command
  rw [Bracket.level_of_plain c.command_plain] at hstep
  exact hstep

theorem AtDepth.run_nested (h : w.AtDepth shape.stackLimit depth) (t : Nested) :
    (w.run shape t.commands).AtDepth shape.stackLimit depth := by
  have hrun := h.run t.commands
  rw [t.level_commands] at hrun
  exact hrun

theorem AtDepth.saved_push_within (h : w.AtDepth shape.stackLimit depth)
    (hroom : depth < shape.stackLimit) : (w.step shape .push).saved = w.turtle :: w.saved := by
  show (w.push shape.stackLimit).saved = _
  rw [h.push_within hroom]

theorem AtDepth.saved_push_beyond (h : w.AtDepth shape.stackLimit depth)
    (hfull : shape.stackLimit ≤ depth) : (w.step shape .push).saved = w.saved := by
  show (w.push shape.stackLimit).saved = _
  rw [h.push_beyond hfull]

/-- A nested text restores all turtles that it saves. -/
theorem AtDepth.saved_nested (h : w.AtDepth shape.stackLimit depth) (t : Nested) :
    (w.run shape t.commands).saved = w.saved := by
  induction t generalizing w depth with
  | nil => rfl
  | symbol c rest ih =>
    rw [Nested.commands_symbol, run_cons, ih (h.step_plain c), saved_step_of_plain c.command_plain]
  | branch side rest ihs ihr =>
    have hpush := h.step .push
    have hside := hpush.run_nested side
    have hpop := hside.step .pop
    rw [Nested.commands_branch, run_cons, run_append, run_cons, ihr hpop]
    -- The last `]` takes back what the first `[` did, saved or dropped.
    have hsaved := ihs hpush
    generalize (w.step shape .push).run shape side.commands = v at hside hsaved
    show v.pop.saved = w.saved
    by_cases hroom : depth < shape.stackLimit
    · obtain ⟨turtle, saved, hs, hp⟩ := hside.pop_within hroom
      rw [hs, h.saved_push_within hroom] at hsaved
      rw [hp]
      exact (List.cons.inj hsaved).2
    · rw [hside.pop_beyond (Nat.not_lt.mp hroom)]
      exact hsaved.trans (h.saved_push_beyond (Nat.not_lt.mp hroom))

/-- The state of a walk behind the `]` of a branch that it opened in another state. -/
def backTo (v w : Walk) : Walk :=
  { v with turtle := w.turtle, saved := w.saved, position := v.position + 1 }

/-- A branch with room for it brings the turtle back. -/
theorem AtDepth.run_branch (h : w.AtDepth shape.stackLimit depth) (hroom : depth < shape.stackLimit)
    (t : Nested) (cs : List Command) :
    w.run shape (.push :: (t.commands ++ .pop :: cs)) =
      (((w.step shape .push).run shape t.commands).backTo w).run shape cs := by
  have hpush := h.step .push
  have hside := hpush.run_nested t
  have hsaved := hpush.saved_nested t
  rw [run_cons, run_append, run_cons]
  generalize (w.step shape .push).run shape t.commands = v at hside hsaved
  obtain ⟨turtle, saved, hs, hpop⟩ := hside.pop_within hroom
  rw [hs, h.saved_push_within hroom] at hsaved
  obtain ⟨rfl, rfl⟩ := List.cons.inj hsaved
  rw [Walk.step, obey, hpop, Walk.backTo]

theorem AtDepth.backTo {v : Walk} (h : w.AtDepth limit depth) (hroom : depth < limit)
    (hv : v.AtDepth limit (depth + 1)) : (v.backTo w).AtDepth limit depth := by
  constructor
  · exact h.saved
  · show v.dropped = _
    rw [hv.dropped]
    omega

end Walk

/-! ## The numbers of a skeleton -/

namespace Shape

theorem strays_skeleton (shape : Shape) (cs : List Command) :
    (shape.skeleton cs).strays = (Bracket.flags 0 cs).count true :=
  ((Walk.atDepth_start shape.stackLimit).strays_run cs).trans (Nat.zero_add _)

theorem unclosed_skeleton (shape : Shape) (cs : List Command) :
    (shape.skeleton cs).unclosed = cs.foldl Bracket.level 0 :=
  ((Walk.atDepth_start shape.stackLimit).run cs).unclosed_eq

end Shape

end Arbor
