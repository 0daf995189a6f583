import Arbor.Geometry.Angle

/-!
# Cone frustums

A piece of branch is a cone cut at both ends.  Its mass is that of a cylinder
when both ends are equally wide.
-/

namespace Arbor

/-- A cone frustum that stands upright, centred on the origin. -/
structure Frustum where
  /-- The radius of the upper end. -/
  top : Float32
  /-- The radius of the lower end. -/
  bottom : Float32
  /-- The distance of the two ends. -/
  height : Float32
  deriving DecidableEq, Repr, Inhabited

namespace Frustum

/-- The third of the half turn, rounded from its exact value. -/
def thirdOfHalfTurn : Float32 := 1.0471975511965976

/-- The mass of the solid at a density. -/
def mass (f : Frustum) (density : Float32) : Float32 :=
  if f.top == f.bottom then
    ((halfTurn * (f.top * f.top)) * 2) * (f.height / 2) * density
  else
    (thirdOfHalfTurn * f.height) * ((f.top * f.top + f.bottom * f.bottom) + f.top * f.bottom)
      * density

end Frustum

end Arbor
