/-!
# `ForumModeration.Connective`: how conditions combine

`not` takes one operand and every other connective takes two or more. When rule
text is read, `AND` and `NAND` bind tighter than `OR`, `XOR`, `XNOR` and `NOR`,
so each binary connective belongs to exactly one of two tiers.
-/

set_option autoImplicit false

namespace ForumModeration

/-- The Boolean connectives. -/
inductive Connective where
  | and
  | or
  | not
  | xor
  | xnor
  | nand
  | nor
deriving DecidableEq, Repr

namespace Connective

/-- The stored spelling of a connective. -/
def tag : Connective → String
  | and => "AND"
  | or => "OR"
  | not => "NOT"
  | xor => "XOR"
  | xnor => "XNOR"
  | nand => "NAND"
  | nor => "NOR"

/-- The connective with the given tag. -/
def ofTag? : String → Option Connective
  | "AND" => some and
  | "OR" => some or
  | "NOT" => some not
  | "XOR" => some xor
  | "XNOR" => some xnor
  | "NAND" => some nand
  | "NOR" => some nor
  | _ => none

theorem ofTag?_tag (connective : Connective) : ofTag? connective.tag = some connective := by
  cases connective <;> rfl

/-- A tag that is known is the connective's. -/
theorem tag_of_ofTag? {text : String} {connective : Connective}
    (h : ofTag? text = some connective) : connective.tag = text := by
  unfold ofTag? at h
  split at h <;> cases h <;> rfl

/-- Whether the connective takes a single operand. -/
def isUnary : Connective → Bool
  | not => true
  | _ => false

/-- The connectives of the loosest tier. -/
def inOrTier : Connective → Bool
  | or | xor | xnor | nor => true
  | _ => false

/-- The connectives that bind tighter than those of the loosest tier. -/
def inAndTier : Connective → Bool
  | and | nand => true
  | _ => false

theorem inOrTier_iff {connective : Connective} :
    connective.inOrTier = true ↔ connective ∈ [or, nor, xor, xnor] := by
  cases connective <;> decide

theorem inAndTier_iff {connective : Connective} :
    connective.inAndTier = true ↔ connective ∈ [and, nand] := by
  cases connective <;> decide

/-- Whether a stored group with this many children is well formed. -/
def acceptsArity (connective : Connective) (count : Nat) : Bool :=
  if connective.isUnary then count = 1 else 2 ≤ count

/-- Every connective is unary or in exactly one of the two tiers. -/
theorem unary_or_tier (connective : Connective) :
    connective.isUnary = !(connective.inOrTier || connective.inAndTier) ∧
      (connective.inOrTier && connective.inAndTier) = false := by
  cases connective <;> exact ⟨rfl, rfl⟩

end Connective

end ForumModeration
