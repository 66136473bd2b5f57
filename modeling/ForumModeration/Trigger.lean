import ForumModeration.Connective
import ForumModeration.Field
import ForumModeration.Operator
import ForumModeration.Value

/-!
# `ForumModeration.Trigger`: condition trees

A trigger says which content a rule applies to. It is a condition or a group of
triggers under a connective. Nothing in the type keeps a group from having the
wrong number of children; where that matters it is checked.

A trigger is checked against a target before it becomes part of a rule. The
check walks the tree depth first, children from left to right, and stops at the
first condition on a field that the target does not have.
-/

set_option autoImplicit false

namespace ForumModeration

/-- A comparison of a field with a value. -/
structure Condition where
  field : Field
  operator : Operator
  value : Value
deriving DecidableEq, Repr

/-- A condition or a group of triggers. -/
inductive Trigger where
  | condition (condition : Condition)
  | group (connective : Connective) (children : List Trigger)
deriving Repr

/-- A trigger tests a field that its target does not have. -/
structure Incompatible where
  field : Field
  target : Target
deriving DecidableEq, Repr

/-- What is said of a field that the target does not have. -/
def Incompatible.message (error : Incompatible) : String :=
  "Field '" ++ error.field.tag ++ "' is not valid for target_type '" ++ error.target.tag ++ "'"

namespace Trigger

mutual

/-- Equality of triggers as a test. -/
private def isEqual : Trigger → Trigger → Bool
  | condition a, condition b => a = b
  | group c as, group d bs => c = d && areEqual as bs
  | _, _ => false

/-- Equality of lists of triggers as a test. -/
private def areEqual : List Trigger → List Trigger → Bool
  | [], [] => true
  | a :: as, b :: bs => isEqual a b && areEqual as bs
  | _, _ => false

end

mutual

private theorem isEqual_iff : (a b : Trigger) → (isEqual a b = true ↔ a = b)
  | condition a, b => by cases b <;> simp [isEqual]
  | group c as, b => by cases b <;> simp [isEqual, areEqual_iff as]

private theorem areEqual_iff : (as bs : List Trigger) → (areEqual as bs = true ↔ as = bs)
  | [], bs => by cases bs <;> simp [areEqual]
  | a :: as, bs => by cases bs <;> simp [areEqual, isEqual_iff a, areEqual_iff as]

end

instance : DecidableEq Trigger := fun a b => decidable_of_iff _ (isEqual_iff a b)

/-- Two triggers under a connective. -/
def combine (connective : Connective) (left right : Trigger) : Trigger :=
  group connective [left, right]

/-- The trigger that holds where the given one does not. -/
def negate (trigger : Trigger) : Trigger :=
  group .not [trigger]

/-- The children of a group. -/
def children? : Trigger → Option (List Trigger)
  | condition _ => none
  | group _ children => some children

mutual

/-- The conditions of a trigger, depth first and from left to right. -/
def conditions : Trigger → List Condition
  | condition c => [c]
  | group _ children => conditionsOf children

/-- The conditions of several triggers, in order. -/
def conditionsOf : List Trigger → List Condition
  | [] => []
  | child :: rest => conditions child ++ conditionsOf rest

end

mutual

/-- Fails at the first condition on a field that the target does not have. -/
def check (target : Target) : Trigger → Except Incompatible Unit
  | condition c => if target.allows c.field then .ok () else .error ⟨c.field, target⟩
  | group _ children => checkAll target children

/-- Checks several triggers in order. -/
def checkAll (target : Target) : List Trigger → Except Incompatible Unit
  | [] => .ok ()
  | child :: rest => do check target child; checkAll target rest

end

mutual

/-- A trigger as it is shown to a reader, with every group in parentheses. -/
def display : Trigger → List Char
  | condition c =>
    '(' :: c.field.tag.toList ++ ' ' :: c.operator.tag.toList ++ ' ' :: c.value.display ++ [')']
  | group connective children =>
    let tag := connective.tag.toList
    '(' :: (if connective.isUnary then tag ++ displayEach [' '] children
      else displayBetween (' ' :: tag ++ [' ']) children) ++ [')']

/-- Triggers with a text in front of each. -/
def displayEach (lead : List Char) : List Trigger → List Char
  | [] => []
  | child :: rest => lead ++ display child ++ displayEach lead rest

/-- Triggers with a text between them. -/
def displayBetween (separator : List Char) : List Trigger → List Char
  | [] => []
  | child :: rest => display child ++ displayEach separator rest

end

mutual

/-- Whether two triggers have the same shape and denote the same at each leaf. -/
def sameTrigger : Trigger → Trigger → Bool
  | condition a, condition b =>
    a.field = b.field && a.operator = b.operator && a.value.sameValue b.value
  | group c as, group d bs => c = d && sameTriggers as bs
  | _, _ => false

/-- Whether two lists of triggers are the same at each place. -/
def sameTriggers : List Trigger → List Trigger → Bool
  | [], [] => true
  | a :: as, b :: bs => sameTrigger a b && sameTriggers as bs
  | _, _ => false

end

end Trigger

end ForumModeration
