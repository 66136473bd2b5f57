/-!
# `ForumModeration.Binary64.Basic`: 64-bit binary floating-point numbers

A number is its 64 bits: a sign, eleven bits of exponent and 52 bits of
fraction. A finite number has the magnitude `significand * 2 ^ scale`. Equality
of the type is equality of the bits, which tells the two zeros apart and makes
every NaN equal to itself. `sameNumber` is the comparison of numbers.
-/

set_option autoImplicit false

namespace ForumModeration

/-- A floating-point number in 64 bits. -/
structure Binary64 where
  bits : UInt64
deriving DecidableEq, Repr

namespace Binary64

/-- The bits of a number without its sign. They order the magnitudes. -/
def magnitudeBits (x : Binary64) : Nat :=
  x.bits.toNat % 0x8000000000000000

/-- The magnitude bits of infinity. Those of a NaN are larger. -/
def infinityBits : Nat :=
  0x7FF0000000000000

/-- Whether the sign bit is set. -/
def isNegative (x : Binary64) : Bool :=
  0x8000000000000000 ≤ x.bits.toNat

/-- The number with the given sign and magnitude bits. -/
def ofMagnitudeBits (negative : Bool) (magnitude : Nat) : Binary64 :=
  ⟨UInt64.ofNat (if negative then 0x8000000000000000 + magnitude else magnitude)⟩

def isFinite (x : Binary64) : Bool :=
  x.magnitudeBits < infinityBits

def isNaN (x : Binary64) : Bool :=
  infinityBits < x.magnitudeBits

def isZero (x : Binary64) : Bool :=
  x.magnitudeBits = 0

/-- The integer that the magnitude of a finite number is a multiple of a power of
two of. -/
def significand (x : Binary64) : Nat :=
  if x.magnitudeBits < 0x10000000000000 then x.magnitudeBits
  else x.magnitudeBits % 0x10000000000000 + 0x10000000000000

/-- The power of two that goes with the significand. -/
def scale (x : Binary64) : Int :=
  if x.magnitudeBits < 0x10000000000000 then -1074
  else (x.magnitudeBits / 0x10000000000000 : Nat) - 1075

/-- The magnitude of a finite number as a fraction, numerator first. -/
def ratio (x : Binary64) : Nat × Nat :=
  if 0 ≤ x.scale then (x.significand * Nat.pow 2 x.scale.toNat, 1)
  else (x.significand, Nat.pow 2 (-x.scale).toNat)

/-- Equality of numbers: a NaN equals nothing and the two zeros are equal. -/
def sameNumber (x y : Binary64) : Bool :=
  !x.isNaN && !y.isNaN && (x.bits = y.bits || (x.isZero && y.isZero))

theorem sameNumber_self {x : Binary64} (h : x.isNaN = false) : x.sameNumber x = true := by
  simp [sameNumber, h]

theorem isNaN_eq_false_of_isFinite {x : Binary64} (h : x.isFinite = true) : x.isNaN = false := by
  simp only [isFinite, decide_eq_true_eq] at h
  simp only [isNaN, decide_eq_false_iff_not]
  omega

end Binary64

end ForumModeration
