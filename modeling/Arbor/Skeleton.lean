import Arbor.Geometry.Frustum
import Arbor.Geometry.Vec3

/-!
# Skeletons

A skeleton is what the turtle leaves behind: straight segments, each linked to
the segment it grows out of, with the bracket counts of the command string.
-/

namespace Arbor

/-- A straight piece of branch. -/
structure Segment where
  /-- The end towards the root. -/
  base : Vec3
  /-- The end towards the tip. -/
  tip : Vec3
  /-- The radius at the base. -/
  baseRadius : Float32
  /-- The radius at the tip. -/
  tipRadius : Float32
  /-- The segment on whose tip this one starts. -/
  parent : Option Nat
  deriving DecidableEq, Repr, Inhabited

namespace Segment

/-- The distance of the two ends. -/
def length (s : Segment) : Float32 := s.base.distance s.tip

/-- The unit vector from base to tip, straight up for a segment without length. -/
def direction (s : Segment) : Vec3 := (s.tip - s.base).normalizeOr .unitY

/-- The segment stood upright. -/
def frustum (s : Segment) : Frustum := ⟨s.tipRadius, s.baseRadius, s.length⟩

end Segment

/-- A tree of segments. -/
@[ext]
structure Skeleton where
  /-- The segments in drawing order. -/
  segments : Array Segment
  /-- How many `]` found no open branch. -/
  strays : Nat
  /-- How many branches were open at the end. -/
  unclosed : Nat
  deriving DecidableEq, Repr, Inhabited

namespace Skeleton

/-- The skeleton of nothing. -/
def empty : Skeleton := ⟨#[], 0, 0⟩

/-- Whether nothing was drawn. -/
def isEmpty (s : Skeleton) : Bool := s.segments.isEmpty

/-- Whether every bracket had its partner. -/
def isBalanced (s : Skeleton) : Bool := s.strays == 0 && s.unclosed == 0

/-! ## Tips -/

/-- Flags the parent of a segment.  A parent that is not a segment of the skeleton
counts for nothing. -/
def flagParent (flags : Array Bool) (segment : Segment) : Array Bool :=
  match segment.parent with
  | some p => flags.setIfInBounds p true
  | none => flags

/-- For each segment, whether another one grows out of it. -/
def hasChild (s : Skeleton) : Array Bool :=
  s.segments.foldl flagParent (Array.replicate s.segments.size false)

/-- The indices of the segments out of which none grows, in order. -/
def terminals (s : Skeleton) : List Nat :=
  let flags := s.hasChild
  (List.range s.segments.size).filter fun i => flags[i]? == some false

/-- The segments out of which none grows, in order. -/
def tips (s : Skeleton) : List Segment := s.terminals.filterMap (s.segments[·]?)

/-- How many leaves the tree has: one for each tip. -/
def leafCount (s : Skeleton) : Nat := s.terminals.length

end Skeleton

end Arbor
