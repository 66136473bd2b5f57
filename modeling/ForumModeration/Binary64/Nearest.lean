import ForumModeration.Binary64.Basic
import ForumModeration.Text.Digits

/-!
# `ForumModeration.Binary64.Nearest`: the number nearest to a decimal

A decimal is read as the floating-point number nearest to it, and a decimal
halfway between two of them as the one with an even significand. Everything is
computed in integers: the decimal is a fraction, its binary exponent is the
floor of its logarithm, and the significand is the fraction scaled by that
exponent and rounded once.
-/

set_option autoImplicit false

namespace ForumModeration

/-- A decimal number `digits * 10 ^ exponent`. -/
structure Decimal where
  digits : Nat
  exponent : Int
deriving DecidableEq, Repr

/-- A decimal as a fraction, numerator first. -/
def Decimal.ratio (d : Decimal) : Nat × Nat :=
  if 0 ≤ d.exponent then (d.digits * Nat.pow 10 d.exponent.toNat, 1)
  else (d.digits, Nat.pow 10 (-d.exponent).toNat)

namespace Binary64

/-- A fraction divided by a power of a base. -/
def divPow (base : Nat) (fraction : Nat × Nat) (power : Int) : Nat × Nat :=
  if 0 ≤ power then (fraction.1, fraction.2 * Nat.pow base power.toNat)
  else (fraction.1 * Nat.pow base (-power).toNat, fraction.2)

/-- A fraction rounded to an integer. Halves go to the even neighbour. -/
def roundHalfEven (num den : Nat) : Nat :=
  if 2 * (num % den) < den then num / den
  else if den < 2 * (num % den) then num / den + 1
  else num / den + num / den % 2

/-- The floor of the binary logarithm of a positive fraction. -/
def floorLog2 (num den : Nat) : Int :=
  -- The difference of the two logarithms is at most one too large.
  let guess : Int := num.log2 - den.log2
  let (num', den') := divPow 2 (num, den) guess
  if den' ≤ num' then guess else guess - 1

/-- The magnitude bits of the number nearest to a fraction. What is too large
for a finite number becomes infinity. -/
def nearestBits (num den : Nat) : Nat :=
  if num = 0 then 0
  else
    -- The significand has 53 bits, or fewer where the exponent can go no lower.
    let scale := max (floorLog2 num den - 52) (-1074)
    let (num', den') := divPow 2 (num, den) scale
    -- A significand that is rounded up to 54 bits carries into the exponent. Infinity comes
    -- right after the largest finite number.
    min ((scale + 1074).toNat * 0x10000000000000 + roundHalfEven num' den') infinityBits

/-- The magnitude bits of the number nearest to a decimal. Decimals far outside
the range of finite numbers are settled without computing the fraction. -/
def nearestDecimalBits (d : Decimal) : Nat :=
  if d.digits = 0 then 0
  else if 400 < d.exponent then infinityBits
  else if d.exponent < -400 ∧ d.exponent + (Text.digits d.digits).length < -400 then 0
  else nearestBits d.ratio.1 d.ratio.2

/-- The number nearest to a decimal with a sign. -/
def nearest (negative : Bool) (d : Decimal) : Binary64 :=
  ofMagnitudeBits negative (nearestDecimalBits d)

end Binary64

end ForumModeration
