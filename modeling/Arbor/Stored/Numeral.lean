import Arbor.Stored.Datum

/-!
# Numerals

How the text of a number becomes a datum.

* A bare run of digits with an optional sign is a whole number, if it fits into
  64 bits, with or without a sign.
* Any other numeral is read to double precision and then to single precision,
  which may overflow to infinity.  The numeral `-0` is one of these, so that its
  sign is not lost.
-/

namespace Arbor

/-- The parts of a number as it is written. -/
structure Numeral where
  /-- Whether there is a minus sign. -/
  negative : Bool
  /-- All digits, before and behind the point, as one whole number. -/
  digits : Nat
  /-- The power of ten of the last digit. -/
  exponent : Int
  /-- Whether there is neither a point nor an exponent. -/
  bare : Bool
  deriving DecidableEq, Repr, Inhabited

namespace Numeral

/-- The number to double precision. -/
def double (n : Numeral) : Float :=
  let magnitude := Float.ofScientific n.digits (decide (n.exponent < 0)) n.exponent.natAbs
  if n.negative then -magnitude else magnitude

/-- The number to single precision. -/
def single (n : Numeral) : Float32 := n.double.toFloat32

/-- The whole number that is written, if it is one that is kept as such. -/
def whole? (n : Numeral) : Option Int :=
  if !n.bare then none
  else if n.negative then
    if 0 < n.digits ∧ n.digits ≤ Nat.pow 2 63 then some (-(n.digits : Int)) else none
  else if n.digits < Nat.pow 2 64 then some n.digits else none

/-- The datum that a numeral stands for. -/
def datum (n : Numeral) : Datum :=
  match n.whole? with
  | some i => .int i
  | none => .real n.single

end Numeral

end Arbor
