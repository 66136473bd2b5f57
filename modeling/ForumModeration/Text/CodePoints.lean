/-!
# `ForumModeration.Text.CodePoints`: sets of characters

A set of characters given by ranges of code points. Both ends of a range belong
to the set.
-/

set_option autoImplicit false

namespace ForumModeration.Text

/-- A set of characters as a list of ranges of code points, ends included. -/
abbrev CodePoints := List (Nat × Nat)

/-- Whether a character lies in one of the ranges. -/
def CodePoints.contains (ranges : CodePoints) (c : Char) : Bool :=
  ranges.any fun range => range.1 ≤ c.toNat && c.toNat ≤ range.2

end ForumModeration.Text
