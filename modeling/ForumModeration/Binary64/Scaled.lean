import ForumModeration.Binary64.Nearest

/-!
# `ForumModeration.Binary64.Scaled`: numbers times powers of ten

A number is scaled by a power of ten within floating-point arithmetic: the power
of ten is rounded, and the product or the quotient is rounded again. So the
result is not always the number nearest to the product, as `nearest` is. It may
differ in the last bits.
-/

set_option autoImplicit false

namespace ForumModeration.Binary64

/-- The product of two finite numbers. -/
def mul (x y : Binary64) : Binary64 :=
  ofMagnitudeBits (x.isNegative != y.isNegative)
    (nearestBits (x.ratio.1 * y.ratio.1) (x.ratio.2 * y.ratio.2))

/-- The quotient of two finite numbers, the second of which is not zero. -/
def div (x y : Binary64) : Binary64 :=
  ofMagnitudeBits (x.isNegative != y.isNegative)
    (nearestBits (x.ratio.1 * y.ratio.2) (x.ratio.2 * y.ratio.1))

/-- The number nearest to a power of ten. -/
def powerOfTen (exponent : Nat) : Binary64 :=
  .nearest false ⟨1, exponent⟩

/-- The exponent of the largest power of ten whose nearest number is finite. -/
def maxPower : Nat := 308

/-- A finite number times a power of ten, if it is finite. -/
def scaled? (x : Binary64) (exponent : Int) : Option Binary64 :=
  if exponent.natAbs ≤ maxPower then
    if 0 ≤ exponent then
      let product := x.mul (powerOfTen exponent.natAbs)
      if product.isFinite then some product else none
    else some (x.div (powerOfTen exponent.natAbs))
  else if x.isZero then some x
  else if 0 ≤ exponent then none
  -- There is no power of ten to divide by at once.
  else scaled? (x.div (powerOfTen maxPower)) (exponent + maxPower)
termination_by exponent.natAbs
decreasing_by
  unfold maxPower at *
  omega

end ForumModeration.Binary64
