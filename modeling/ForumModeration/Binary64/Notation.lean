import ForumModeration.Binary64.Shortest

/-!
# `ForumModeration.Binary64.Notation`: floating-point numbers as text

A number is written with its shortest digits. In positional notation there is
always a point with a digit on either side of it. Rule text knows no other
notation. What is shown to a reader and what is stored as JSON switch to
scientific notation for very large and very small numbers, each at its own
bounds.
-/

set_option autoImplicit false

namespace ForumModeration

namespace Decimal

/-- The power of ten of the leading digit. -/
def leadingExponent (d : Decimal) : Int :=
  d.exponent + (Text.digits d.digits).length - 1

/-- Positional notation, with a digit on either side of the point. -/
def positional (d : Decimal) : List Char :=
  let text := Text.digits d.digits
  if 0 ≤ d.exponent then text ++ List.replicate d.exponent.toNat '0' ++ ['.', '0']
  else
    let places := (-d.exponent).toNat
    if places < text.length then
      text.take (text.length - places) ++ '.' :: text.drop (text.length - places)
    else ['0', '.'] ++ List.replicate (places - text.length) '0' ++ text

/-- Scientific notation: one digit, the others after a point if there are any,
and the exponent. `plus` says whether an exponent from zero on shows its sign. -/
def scientific (plus : Bool) (d : Decimal) : List Char :=
  let text := Text.digits d.digits
  let others := text.drop 1
  let sign := if plus && 0 ≤ d.leadingExponent then ['+'] else []
  text.take 1 ++ (if others.isEmpty then [] else '.' :: others) ++ 'e' :: sign ++
    Text.signedDigits d.leadingExponent

end Decimal

/-- How numbers are written: the powers of ten of the leading digit from which on
and up to which notation is positional, whether exponents show a plus sign, and
which of two equally near decimals is taken. -/
structure NumberStyle where
  least : Option Int
  greatest : Option Int
  plus : Bool
  tie : Tie
deriving DecidableEq, Repr

namespace NumberStyle

/-- Rule text has no scientific notation. -/
def ruleText : NumberStyle := ⟨none, none, false, .up⟩

/-- Numbers shown to a reader are positional from `0.0001` up to below `1e16`. -/
def shown : NumberStyle := ⟨some (-4), some 15, false, .up⟩

/-- Numbers in JSON are positional from `0.00001` up to below `1e+16`. -/
def json : NumberStyle := ⟨some (-5), some 15, true, .toEven⟩

/-- Whether a number with this leading power of ten is written positionally. -/
def isPositional (style : NumberStyle) (leading : Int) : Bool :=
  style.least.all (· ≤ leading) && style.greatest.all (leading ≤ ·)

/-- The text of a magnitude. -/
def magnitude (style : NumberStyle) (x : Binary64) : List Char :=
  if x.isZero then ['0', '.', '0']
  else if x.isFinite then
    let d := x.shortest style.tie
    if style.isPositional d.leadingExponent then d.positional else d.scientific style.plus
  else ['i', 'n', 'f']

/-- The text of a number. -/
def write (style : NumberStyle) (x : Binary64) : List Char :=
  if x.isNaN then ['N', 'a', 'N']
  else if x.isNegative then '-' :: style.magnitude x
  else style.magnitude x

end NumberStyle

end ForumModeration
