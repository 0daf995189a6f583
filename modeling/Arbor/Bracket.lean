import Arbor.Command

/-!
# Brackets

A `]` belongs to the last `[` that is still open.  One that finds no open `[`
is *stray* and has no effect on any count.
-/

namespace Arbor.Bracket

/-- What is known of the brackets after some commands. -/
structure Reading where
  /-- How many branches are open. -/
  depth : Nat
  /-- For each command read, the last one first, whether it is a stray `]`. -/
  strays : List Bool
  deriving DecidableEq, Repr, Inhabited

/-- Reads one more command. -/
def Reading.read (r : Reading) : Command → Reading
  | .push => ⟨r.depth + 1, false :: r.strays⟩
  | .pop => match r.depth with
    | 0 => ⟨0, true :: r.strays⟩
    | depth + 1 => ⟨depth, false :: r.strays⟩
  | _ => ⟨r.depth, false :: r.strays⟩

/-- The reading of a whole command list. -/
def reading (cs : List Command) : Reading := cs.foldl Reading.read ⟨0, []⟩

/-- For each command, whether it is a stray `]`. -/
def strays (cs : List Command) : List Bool := (reading cs).strays.reverse

@[simp] theorem Reading.length_read (r : Reading) (c : Command) :
    (r.read c).strays.length = r.strays.length + 1 := by
  unfold read
  repeat' split
  all_goals rfl

theorem length_foldl_read (cs : List Command) (r : Reading) :
    (cs.foldl Reading.read r).strays.length = r.strays.length + cs.length := by
  induction cs generalizing r with
  | nil => rfl
  | cons c cs ih => rw [List.foldl_cons, ih, Reading.length_read, List.length_cons]; omega

/-- Every command has its flag. -/
@[simp] theorem length_strays (cs : List Command) : (strays cs).length = cs.length := by
  simp [strays, reading, length_foldl_read]

/-- How many branches are still open at the end. -/
def openAtEnd (cs : List Command) : Nat := (reading cs).depth

end Arbor.Bracket
