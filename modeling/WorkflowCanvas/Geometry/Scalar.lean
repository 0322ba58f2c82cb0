/-!
The numbers a canvas is measured in.

Everything geometric is generic in a scalar: it adds, subtracts, multiplies, compares, and picks
the lesser or the greater of two values. Binary floating point is the scalar the editor runs on.
The rationals are the scalar in which the laws of geometry hold without rounding.
-/

namespace WorkflowCanvas

/-- A number system that coordinates and lengths are taken from. -/
class Scalar (K : Type) extends Zero K, Add K, Sub K, Mul K, LT K, LE K where
  lesser : K → K → K
  greater : K → K → K
  decideLT : DecidableLT K
  decideLE : DecidableLE K

attribute [reducible, instance] Scalar.decideLT Scalar.decideLE

/-- Picking among floats ignores a NaN: the other value is picked, and NaN only if both are. -/
instance : Scalar Float where
  zero := 0
  lesser x y := if y < x ∨ x.isNaN then y else x
  greater x y := if x < y ∨ x.isNaN then y else x
  decideLT := inferInstance
  decideLE := inferInstance

instance : Scalar Rat where
  zero := 0
  lesser x y := if y < x then y else x
  greater x y := if x < y then y else x
  decideLT := inferInstance
  decideLE := inferInstance

end WorkflowCanvas
