import Arbor.Decimal

/-!
# Shortest decimal text

A single-precision number is written with the fewest decimal digits that read
back as the same number.

* A positive number is `m * 2 ^ e`.  The reals that round to it form an
  interval around it, which reaches half way to each neighbour.  The ends belong
  to it when `m` is even, since a half goes to the even neighbour.
* The neighbour below a power of two is twice as close, except at the bottom of
  the range.
* On the grid of the multiples of `10 ^ k` only the two grid points next to the
  number have to be looked at: if a grid point lies in the interval, one of them
  does.
* The coarsest grid with a hit is taken, of two hits the nearer one, and of two
  equally near the upper one.

All of it is exact arithmetic on whole numbers.
-/

namespace Arbor.Decimal

/-- A positive binary number `mantissa * 2 ^ exponent`, with the width of the
gap to the number below it. -/
structure Binary where
  /-- The binary digits. -/
  mantissa : Nat
  /-- The power of two of the last binary digit. -/
  exponent : Int
  /-- Whether the number below is only half as far away as the one above. -/
  narrow : Bool
  deriving DecidableEq, Repr

/-- The magnitude of a finite number, from its bits. -/
def Binary.ofBits (bits : UInt32) : Binary :=
  let fraction : Nat := bits.toNat % Nat.pow 2 23
  let scale : Nat := bits.toNat / Nat.pow 2 23 % Nat.pow 2 8
  if scale = 0 then ⟨fraction, -149, false⟩
  else ⟨Nat.pow 2 23 + fraction, (scale : Int) - 150, decide (fraction = 0 ∧ 1 < scale)⟩

namespace Binary

/-- The number in quarters of its last binary digit. -/
def quarters (b : Binary) : Nat := 4 * b.mantissa

/-- The lower end of the interval of the reals that round to the number, in quarters. -/
def lowest (b : Binary) : Nat := b.quarters - (if b.narrow then 1 else 2)

/-- The upper end of that interval, in quarters. -/
def highest (b : Binary) : Nat := b.quarters + 2

/-- A quarter of the last binary digit over one grid step `10 ^ k`, as a fraction. -/
def quarterOver (b : Binary) (k : Int) : Nat × Nat :=
  let e := b.exponent - 2
  (Nat.pow 2 e.toNat * Nat.pow 10 (-k).toNat, Nat.pow 2 (-e).toNat * Nat.pow 10 k.toNat)

/-- Whether the multiple `c` of `10 ^ k` reads back as the number. -/
def hits (b : Binary) (k : Int) (c : Nat) : Bool :=
  let (num, den) := b.quarterOver k
  if b.mantissa % 2 = 0 then b.lowest * num ≤ c * den && c * den ≤ b.highest * num
  else b.lowest * num < c * den && c * den < b.highest * num

/-- The multiple of `10 ^ k` to write the number with, if there is one. -/
def onGrid (b : Binary) (k : Int) : Option Decimal :=
  let (num, den) := b.quarterOver k
  let value := b.quarters * num
  let c := value / den
  let below := b.hits k c
  let above := b.hits k (c + 1)
  if above && (!below || (c + 1) * den - value ≤ value - c * den) then some ⟨c + 1, k⟩
  else if below then some ⟨c, k⟩
  else none

/-- The number on the coarsest grid that has a multiple for it.  The grids go
from `10 ^ 39`, beyond the largest number, down to `10 ^ (-149)`, of which every
number is a multiple. -/
def shortest (b : Binary) : Decimal :=
  ((List.range 189).findSome? fun (i : Nat) => b.onGrid (39 - i)).getD ⟨0, 0⟩

end Binary

/-- The text of a number: the sign, then the fewest digits that read back.  The
sign of zero is kept, and numbers that are not finite have names. -/
def text (v : Float32) : String :=
  if v.isNaN then "NaN"
  else
    let sign := if v.toBits.toNat / Nat.pow 2 31 = 0 then [] else ['-']
    if v.isInf then String.ofList (sign ++ "inf".toList)
    else
      let b := Binary.ofBits v.toBits
      let d := if b.mantissa = 0 then ⟨0, 0⟩ else b.shortest
      String.ofList (sign ++ d.positional)

end Arbor.Decimal
