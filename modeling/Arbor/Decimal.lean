/-!
# Decimal numbers

A non-negative decimal number is a run of digits and a power of ten.  It is
written positionally: no exponent, a point only where there is a fraction.
-/

namespace Arbor

/-- The number `digits * 10 ^ exponent`. -/
structure Decimal where
  /-- The digits, read as a whole number. -/
  digits : Nat
  /-- The power of ten of the last digit. -/
  exponent : Int
  deriving DecidableEq, Repr, Inhabited

namespace Decimal

/-- The digits of a number, the most significant first. -/
def digitChars (d : Decimal) : List Char := Nat.toDigits 10 d.digits

/-- The number without an exponent.  A whole number gets its zeros at the end.
A fraction has at least one digit before the point. -/
def positional (d : Decimal) : List Char :=
  match d.exponent with
  | .ofNat zeros => d.digitChars ++ List.replicate zeros '0'
  | .negSucc n =>
    let places := n + 1
    let cs := List.replicate (places + 1 - d.digitChars.length) '0' ++ d.digitChars
    let whole := cs.length - places
    cs.take whole ++ '.' :: cs.drop whole

end Decimal

end Arbor
