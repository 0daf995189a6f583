/-!
# Angles

An angle is a single-precision number of radians.  The constants are the
nearest single-precision numbers to π and 2π.
-/

namespace Arbor

/-- The half turn. -/
def halfTurn : Float32 := 3.14159265358979

/-- The full turn. -/
def fullTurn : Float32 := 6.28318530717959

/-- An angle given in degrees.  The factor is rounded once and the product once. -/
def ofDegrees (degrees : Float32) : Float32 := degrees * (halfTurn / 180)

end Arbor
