import Arbor.Geometry.Angle

/-!
# The random source

Leaves are rolled by numbers drawn from a random source.

*Any source.*  A source is a type of states, each of which gives a word of 32 bits and
the next state (`RandomSource`).  A roll takes the upper 23 bits of a word as a fraction
of the full turn, and several rolls are those of the states on the way
(`RandomSource.rolls`).

*The small one.*  `Rng` is a state of four words of 64 bits.  A seed is stretched to it
by a linear congruential sequence, of which each term gives 32 bits, the low half of a
word first.  So a run is reproducible from its seed.
-/

namespace Arbor

/-- What rolls need of a random source, which has states of the given type. -/
class RandomSource (σ : Type) where
  /-- The word that a state gives. -/
  bits : σ → UInt32
  /-- The state after one draw. -/
  next : σ → σ

namespace RandomSource

variable {σ : Type} [RandomSource σ]

/-! ## Rolls -/

/-- A word as a fraction of one: its upper 23 bits, put behind the point of a
number between one and two. -/
def fraction (word : UInt32) : Float32 :=
  Float32.ofBits ((0x3f800000 : UInt32) ||| (word >>> 9)) - 1

/-- The roll that a state gives, from zero up to but not including a full turn.
The largest fraction is `1 - 2 ^ (-23)`, which is still below a full turn after
rounding, so one draw always does. -/
def roll (r : σ) : Float32 := fraction (bits r) * fullTurn + 0

/-- The state after some draws. -/
def skip : Nat → σ → σ
  | 0, r => r
  | n + 1, r => skip n (next r)

/-- Draws rolls behind those already drawn. -/
def drawOnto : Nat → Array Float32 → σ → Array Float32 × σ
  | 0, drawn, r => (drawn, r)
  | n + 1, drawn, r => drawOnto n (drawn.push (roll r)) (next r)

/-- The next rolls, one draw each, and the state after them. -/
def rolls (n : Nat) (r : σ) : List Float32 × σ :=
  let (drawn, r) := drawOnto n #[] r
  (drawn.toList, r)

theorem drawOnto_snd (n : Nat) (drawn : Array Float32) (r : σ) :
    (drawOnto n drawn r).2 = skip n r := by
  induction n generalizing drawn r with
  | zero => rfl
  | succ n ih => exact ih _ _

@[simp] theorem rolls_snd (n : Nat) (r : σ) : (rolls n r).2 = skip n r :=
  drawOnto_snd n #[] r

theorem size_drawOnto (n : Nat) (drawn : Array Float32) (r : σ) :
    (drawOnto n drawn r).1.size = drawn.size + n := by
  induction n generalizing drawn r with
  | zero => rfl
  | succ n ih => rw [drawOnto, ih, Array.size_push]; omega

@[simp] theorem length_rolls (n : Nat) (r : σ) : (rolls n r).1.length = n := by
  simp [rolls, size_drawOnto]

end RandomSource

/-- The state of the small source. -/
structure Rng where
  /-- The first word. -/
  s0 : UInt64
  /-- The second word. -/
  s1 : UInt64
  /-- The third word. -/
  s2 : UInt64
  /-- The fourth word. -/
  s3 : UInt64
  deriving DecidableEq, Repr, Inhabited

namespace Rng

/-! ## Seeds -/

/-- The next term of the seeding sequence. -/
def seedStep (s : UInt64) : UInt64 := s * 6364136223846793005 + 11634580027462260723

/-- The 32 bits that a term of the seeding sequence gives: a fold of the term,
turned right by its upper five bits. -/
def seedBits (s : UInt64) : UInt32 :=
  let x := (((s >>> 18) ^^^ s) >>> 27).toUInt32
  let turn := (s >>> 59).toUInt32
  (x >>> turn) ||| (x <<< (32 - turn))

/-- A word of the state from two terms, and the second of them. -/
def seedWord (s : UInt64) : UInt64 × UInt64 :=
  let low := seedStep s
  let high := seedStep low
  ((seedBits low).toUInt64 ||| ((seedBits high).toUInt64 <<< 32), high)

/-- The state for a seed. -/
def ofSeed (seed : UInt64) : Rng :=
  let (s0, s) := seedWord seed
  let (s1, s) := seedWord s
  let (s2, s) := seedWord s
  let (s3, _) := seedWord s
  ⟨s0, s1, s2, s3⟩

/-! ## Draws -/

/-- A word turned left by some bits. -/
def turnLeft (x bits : UInt64) : UInt64 := (x <<< bits) ||| (x >>> (64 - bits))

/-- The word that a state gives. -/
def word (r : Rng) : UInt64 := turnLeft (r.s0 + r.s3) 23 + r.s0

/-- The state after one draw. -/
def next (r : Rng) : Rng :=
  let s2 := r.s2 ^^^ r.s0
  let s3 := r.s3 ^^^ r.s1
  { s0 := r.s0 ^^^ s3
    s1 := r.s1 ^^^ s2
    s2 := s2 ^^^ (r.s1 <<< 17)
    s3 := turnLeft s3 45 }

/-- A draw takes the upper half of a word. -/
instance : RandomSource Rng where
  bits r := (r.word >>> 32).toUInt32
  next := next

end Rng

end Arbor
