import ForumModeration.Binary64.Nearest

/-!
# `ForumModeration.Binary64.Shortest`: the shortest decimal of a number

A finite number is written with the fewest significant digits that read back as
the same number, and among those with the digits nearest to it. For each count
of digits the number lies between two neighbours on the decimal grid with that
many digits. If any decimal on the grid reads back, one of the two neighbours
does, so the first count with such a neighbour is the least. Where two
neighbours are equally near, the `Tie` rule decides.

* `nearestDecimalBits_shortest?`: the decimal found reads back.
-/

set_option autoImplicit false

namespace ForumModeration

/-- Which of two equally near decimals is written. -/
inductive Tie where
  | up
  | toEven
deriving DecidableEq, Repr

namespace Decimal

/-- The decimal without zeros at the end of its digits. -/
def trimZeros (d : Decimal) : Decimal :=
  if h : d.digits ≠ 0 ∧ d.digits % 10 = 0 then
    trimZeros ⟨d.digits / 10, d.exponent + 1⟩
  else d
termination_by d.digits
decreasing_by omega

end Decimal

namespace Binary64

/-- The floor of the decimal logarithm of a positive fraction. -/
def floorLog10 (num den : Nat) : Int :=
  if den ≤ num then ((Text.digits (num / den)).length : Int) - 1
  -- A fraction below one is at least `10 ^ -k` exactly if `(den - 1) / num` has at most `k` digits.
  else -((Text.digits ((den - 1) / num)).length : Int)

/-- The two integers around a fraction, the one to be preferred first. -/
def neighbours (tie : Tie) (num den : Nat) : List Nat :=
  let low := num / den
  let twice := 2 * (num % den)
  if den < twice || (twice = den && (tie = .up || low % 2 = 1)) then [low + 1, low]
  else [low, low + 1]

/-- The decimals with `count` significant digits around a number, the one to be
preferred first. -/
def candidates (tie : Tie) (x : Binary64) (count : Nat) : List Decimal :=
  let (num, den) := x.ratio
  let exponent := floorLog10 num den - count + 1
  -- In units of this exponent the number has `count` digits in front of the point.
  let (num', den') := divPow 10 (num, den) exponent
  (neighbours tie num' den').map (⟨·, exponent⟩)

/-- The shortest decimal that reads back as the number, nearest first. -/
def shortest? (tie : Tie) (x : Binary64) : Option Decimal :=
  (List.range 17).findSome? fun count =>
    (x.candidates tie (count + 1)).find? fun d => nearestDecimalBits d = x.magnitudeBits

/-- All digits of a finite number. -/
def exactDecimal (x : Binary64) : Decimal :=
  if 0 ≤ x.scale then ⟨x.significand * Nat.pow 2 x.scale.toNat, 0⟩
  else ⟨x.significand * Nat.pow 5 (-x.scale).toNat, x.scale⟩

/-- The decimal a finite number other than zero is written as. -/
def shortest (tie : Tie) (x : Binary64) : Decimal :=
  -- Seventeen digits tell any two numbers apart, so a decimal is always found.
  ((x.shortest? tie).getD x.exactDecimal).trimZeros

theorem nearestDecimalBits_shortest? {tie : Tie} {x : Binary64} {d : Decimal}
    (h : x.shortest? tie = some d) : nearestDecimalBits d = x.magnitudeBits := by
  obtain ⟨_, _, found⟩ := List.exists_of_findSome?_eq_some h
  simpa using List.find?_some found

end Binary64

end ForumModeration
