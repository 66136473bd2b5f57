/-!
# `ForumModeration.Operator`: how a condition compares

The operator of a condition says how the field's content is held against the
value. `among` asks for membership and is the only operator that needs a list.
-/

set_option autoImplicit false

namespace ForumModeration

/-- The comparisons a condition can make. -/
inductive Operator where
  | contains
  | regex
  | eq
  | gt
  | lt
  | gte
  | lte
  | among
deriving DecidableEq, Repr

namespace Operator

/-- The stored spelling of an operator. -/
def tag : Operator → String
  | contains => "contains"
  | regex => "regex"
  | eq => "eq"
  | gt => "gt"
  | lt => "lt"
  | gte => "gte"
  | lte => "lte"
  | among => "in"

/-- The operator with the given tag. -/
def ofTag? : String → Option Operator
  | "contains" => some contains
  | "regex" => some regex
  | "eq" => some eq
  | "gt" => some gt
  | "lt" => some lt
  | "gte" => some gte
  | "lte" => some lte
  | "in" => some among
  | _ => none

theorem ofTag?_tag (operator : Operator) : ofTag? operator.tag = some operator := by
  cases operator <;> rfl

/-- A tag that is known is the operator's. -/
theorem tag_of_ofTag? {text : String} {operator : Operator} (h : ofTag? text = some operator) :
    operator.tag = text := by
  unfold ofTag? at h
  split at h <;> cases h <;> rfl

end Operator

end ForumModeration
