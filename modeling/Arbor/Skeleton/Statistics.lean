import Arbor.Skeleton

/-!
# Measures of a skeleton

Numbers that describe a tree as a whole: where it starts, how much its wood
weighs, and how much room it takes.
-/

namespace Arbor.Skeleton

/-- How many segments grow out of none. -/
def rootCount (s : Skeleton) : Nat := s.segments.toList.countP (·.parent.isNone)

/-- The mass of all segments at a density, summed in drawing order.  An empty sum
is minus zero, the neutral element of rounded addition. -/
def woodMass (s : Skeleton) (density : Float32) : Float32 :=
  s.segments.foldl (fun mass segment => mass + segment.frustum.mass density) (-0.0)

/-- Two opposite corners of a box. -/
structure Box where
  /-- The corner with the smallest coordinates. -/
  low : Vec3
  /-- The corner with the largest coordinates. -/
  high : Vec3
  deriving DecidableEq, Repr, Inhabited

/-- The box extended by both ends of a segment. -/
def Box.include (b : Box) (s : Segment) : Box :=
  ⟨(b.low.min s.base).min s.tip, (b.high.max s.base).max s.tip⟩

/-- The smallest box around all ends, if there is a segment. -/
def bounds (s : Skeleton) : Option Box :=
  s.segments[0]?.map fun first =>
    s.segments.foldl Box.include ⟨first.base.min first.tip, first.base.max first.tip⟩

end Arbor.Skeleton
