import Arbor.Bracket

/-!
# The taper

Branches get thinner towards their tips.  How thin a segment is depends on how
far it is from the end of the longest chain through it, so the command list is
read backwards, before any geometry is made.

* A counter holds how many segments follow in the current chain.
* Backwards, a `]` opens a branch: the counter is saved and a new chain begins.
* A `[` closes it: the longer of the branch and what follows it goes on.
* A stray `]` and a `[` that is never closed leave the counter alone.

Counting from the root, a segment's position is the distance of its counter from
the largest one.
-/

namespace Arbor

/-- The place of every segment in the taper. -/
structure Taper where
  /-- The position of each segment, in drawing order.  The root of the longest
  chain is at zero. -/
  positions : Array Nat
  /-- The number of segments in the longest chain. -/
  length : Nat
  deriving DecidableEq, Repr, Inhabited

namespace Taper

/-- What is known after reading the commands from the end down to some place. -/
structure Backward where
  /-- How many segments follow in the current chain. -/
  following : Nat
  /-- The counters of the chains that go on behind the branches now open. -/
  saved : List Nat
  /-- For each segment read, how many follow it; the first one in the text first. -/
  depths : List Nat
  deriving DecidableEq, Repr, Inhabited

/-- Reads the command before those already read.  The flag says whether it is a
stray `]`. -/
def Backward.read (command : Command × Bool) (b : Backward) : Backward :=
  match command with
  | (.draw, _) => { b with following := b.following + 1, depths := b.following :: b.depths }
  | (.pop, false) => { b with following := 0, saved := b.following :: b.saved }
  | (.push, _) =>
    match b.saved with
    | [] => b
    | outer :: saved => { b with following := max b.following outer, saved := saved }
  | _ => b

/-- Nothing but drawing commands and brackets is read. -/
theorem read_of_plain {c : Command} (hdraw : c ≠ .draw) (hplain : c ≠ .push ∧ c ≠ .pop)
    (b : Backward) (stray : Bool) : b.read (c, stray) = b := by
  cases c with
  | draw => exact absurd rfl hdraw
  | push => exact absurd rfl hplain.1
  | pop => exact absurd rfl hplain.2
  | move => rfl
  | turn _ => rfl
  | ignore => rfl

/-- The reading of a whole command list, from its end. -/
def backward (cs : List Command) : Backward :=
  (cs.zip (Bracket.strays cs)).foldr Backward.read ⟨0, [], []⟩

/-- The taper in which each segment is followed by the given number of others. -/
def ofDepths : List Nat → Taper
  | [] => ⟨#[], 0⟩
  | depths@(_ :: _) =>
    let longest := depths.foldl max 0
    ⟨(depths.map (longest - ·)).toArray, longest + 1⟩

/-- Every segment has its position. -/
@[simp] theorem size_ofDepths (depths : List Nat) :
    (ofDepths depths).positions.size = depths.length := by
  cases depths <;> simp [ofDepths]

/-- The taper of a command list. -/
def ofCommands (cs : List Command) : Taper := ofDepths (backward cs).depths

/-- The radii of the `i`-th segment at its root and at its tip, where the tree
tapers from `base` to `tip`.  A tree of single segments does not taper.  There is
nothing but tip beyond the last segment. -/
def radii (t : Taper) (i : Nat) (base tip : Float32) : Float32 × Float32 :=
  match t.positions[i]? with
  | none => (tip, tip)
  | some position =>
    if t.length ≤ 1 then (base, base)
    else
      let step := (tip - base) / Float32.ofNat t.length
      (base + Float32.ofNat position * step, base + Float32.ofNat (position + 1) * step)

/-- In a tree that tapers, the radii go down by one step from base to tip. -/
theorem radii_of_position {t : Taper} {i a : Nat} (ha : t.positions[i]? = some a)
    (hlong : 2 ≤ t.length) (base tip : Float32) :
    t.radii i base tip =
      (base + Float32.ofNat a * ((tip - base) / Float32.ofNat t.length),
        base + Float32.ofNat (a + 1) * ((tip - base) / Float32.ofNat t.length)) := by
  rw [radii, ha]
  exact if_neg (Nat.not_le.mpr hlong)

end Taper

end Arbor
