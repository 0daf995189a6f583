import Arbor.Turtle

/-!
# Commands

A command string is read symbol by symbol, and every symbol has a meaning.

* An ASCII capital draws a segment and an ASCII small letter moves without
  drawing.
* `+` and `-` yaw, `^` and `&` pitch, `/` and `*` roll, one way and the other;
  `|` turns around.
* `[` opens a branch and `]` closes it.
* Any other symbol is ignored.

Letters and signs outside ASCII are ignored, also those that look alike.
-/

namespace Arbor

/-- A change of orientation. -/
inductive Turn
  /-- A turn around the direction of travel, by the turn angle times a factor. -/
  | yaw (factor : Float32)
  /-- A turn around the left axis, by the turn angle times a factor. -/
  | pitch (factor : Float32)
  /-- A turn around the heading axis, by the turn angle times a factor. -/
  | roll (factor : Float32)
  /-- A half turn around the heading axis, whatever the turn angle. -/
  | about
  deriving DecidableEq, Repr, Inhabited

/-- The turtle after a turn. -/
def Turn.apply (angle : Float32) (turtle : Turtle) : Turn → Turtle
  | .yaw factor => turtle.yaw (angle * factor)
  | .pitch factor => turtle.pitch (angle * factor)
  | .roll factor => turtle.roll (angle * factor)
  | .about => turtle.roll halfTurn

@[simp] theorem Turn.position_apply (angle : Float32) (turtle : Turtle) (t : Turn) :
    (t.apply angle turtle).position = turtle.position := by
  cases t <;> rfl

@[simp] theorem Turn.standsOn_apply (angle : Float32) (turtle : Turtle) (t : Turn) :
    (t.apply angle turtle).standsOn = turtle.standsOn := by
  cases t <;> rfl

/-- The meaning of a symbol. -/
inductive Command
  /-- Step forward and leave a segment behind. -/
  | draw
  /-- Step forward without a trace. -/
  | move
  /-- Change the orientation. -/
  | turn (turn : Turn)
  /-- Open a branch: save the turtle. -/
  | push
  /-- Close a branch: go back to the turtle saved last. -/
  | pop
  /-- Do nothing. -/
  | ignore
  deriving DecidableEq, Repr, Inhabited

namespace Command

/-- The meaning of a symbol. -/
def ofSymbol (c : Char) : Command :=
  if 'A' ≤ c ∧ c ≤ 'Z' then .draw
  else if 'a' ≤ c ∧ c ≤ 'z' then .move
  else match c with
    | '+' => .turn (.yaw 1)
    | '-' => .turn (.yaw (-1))
    | '^' => .turn (.pitch 1)
    | '&' => .turn (.pitch (-1))
    | '/' => .turn (.roll 1)
    | '*' => .turn (.roll (-1))
    | '|' => .turn .about
    | '[' => .push
    | ']' => .pop
    | _ => .ignore

/-- The meanings of the symbols of a text, in order. -/
def ofText (text : String) : List Command := text.toList.map ofSymbol

/-- The turtle after a command that only turns it.  Any other command needs
more than the turtle. -/
def rotate? (angle : Float32) (turtle : Turtle) : Command → Option Turtle
  | .turn t => some (t.apply angle turtle)
  | _ => none

end Command

end Arbor
