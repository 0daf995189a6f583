import Arbor.Decimal.Shortest

/-!
# Faults

A request is refused when a number in it cannot describe a tree.  A fault says
which number and what is wrong with it; `Fault.message` is its wording.  Odd
command strings are never a fault.
-/

namespace Arbor

/-- The numbers that are checked. -/
inductive Quantity
  /-- The angle of a turn. -/
  | angle
  /-- The length of a step. -/
  | stepLength
  /-- The radius at the root. -/
  | baseRadius
  /-- The radius at a tip. -/
  | tipRadius
  /-- The length from which on a segment is drawn. -/
  | minLength
  /-- The width of a leaf. -/
  | leafWidth
  /-- The height of a leaf. -/
  | leafHeight
  deriving DecidableEq, Repr, Inhabited

/-- The name of a quantity in messages. -/
def Quantity.name : Quantity → String
  | .angle => "angle"
  | .stepLength => "step_length"
  | .baseRadius => "start_radius"
  | .tipRadius => "end_radius"
  | .minLength => "min_segment_length"
  | .leafWidth => "leaf_width"
  | .leafHeight => "leaf_height"

/-- Why a request is refused. -/
inductive Fault
  /-- A quantity is infinite or not a number. -/
  | notFinite (quantity : Quantity) (value : Float32)
  /-- A quantity that has to be positive is not. -/
  | notPositive (quantity : Quantity) (value : Float32)
  /-- A quantity is below zero. -/
  | negative (quantity : Quantity) (value : Float32)
  /-- A branch has too few sides to enclose anything. -/
  | tooFewSides (sides : UInt32)
  deriving DecidableEq, Repr, Inhabited

/-- The wording of a fault. -/
def Fault.message : Fault → String
  | .notFinite q v => "Invalid float value: " ++ q.name ++ " = " ++ Decimal.text v
  | .notPositive q v =>
    "Invalid input data: " ++ q.name ++ " must be positive, got " ++ Decimal.text v
  | .negative q v =>
    "Invalid input data: " ++ q.name ++ " must not be negative, got " ++ Decimal.text v
  | .tooFewSides n =>
    "Invalid input data: radial_segments must be at least 3, got " ++ toString n.toNat

namespace Quantity

/-- Refuses a value that is not finite. -/
def checkFinite (q : Quantity) (v : Float32) : Except Fault Unit :=
  if v.isFinite then .ok () else .error (.notFinite q v)

/-- Refuses a value that is not finite or not above zero. -/
def checkPositive (q : Quantity) (v : Float32) : Except Fault Unit := do
  q.checkFinite v
  if v ≤ 0 then .error (.notPositive q v) else .ok ()

/-- Refuses a value that is not finite or below zero. -/
def checkNotNegative (q : Quantity) (v : Float32) : Except Fault Unit := do
  q.checkFinite v
  if v < 0 then .error (.negative q v) else .ok ()

end Quantity

end Arbor
