import ForumModeration.Binary64.Notation
import ForumModeration.Calendar.Timestamp

/-!
# `ForumModeration.Value`: the literals of conditions and actions

A value is a truth value, a 64-bit integer, a floating-point number, an instant,
a string or a list of values of any kinds.

Two values are equal if they are the same bits and the same text. `sameValue` is
the comparison of what they denote: floating-point numbers are compared as
numbers and instants as points of time.
-/

set_option autoImplicit false

namespace ForumModeration

/-- What a field is compared with or a parameter is set to. -/
inductive Value where
  | bool (truth : Bool)
  | int (number : Int64)
  | float (number : Binary64)
  | instant (time : Instant)
  | string (text : String)
  | list (items : List Value)
deriving Repr

namespace Value

mutual

/-- Equality of values as a test. -/
private def isEqual : Value → Value → Bool
  | bool a, bool b => a = b
  | int a, int b => a = b
  | float a, float b => a = b
  | instant a, instant b => a = b
  | string a, string b => a = b
  | list as, list bs => areEqual as bs
  | _, _ => false

/-- Equality of lists of values as a test. -/
private def areEqual : List Value → List Value → Bool
  | [], [] => true
  | a :: as, b :: bs => isEqual a b && areEqual as bs
  | _, _ => false

end

mutual

private theorem isEqual_iff : (a b : Value) → (isEqual a b = true ↔ a = b)
  | bool a, b => by cases b <;> simp [isEqual]
  | int a, b => by cases b <;> simp [isEqual]
  | float a, b => by cases b <;> simp [isEqual]
  | instant a, b => by cases b <;> simp [isEqual]
  | string a, b => by cases b <;> simp [isEqual]
  | list as, b => by cases b <;> simp [isEqual, areEqual_iff as]

private theorem areEqual_iff : (as bs : List Value) → (areEqual as bs = true ↔ as = bs)
  | [], bs => by cases bs <;> simp [areEqual]
  | a :: as, bs => by cases bs <;> simp [areEqual, isEqual_iff a, areEqual_iff as]

end

instance : DecidableEq Value := fun a b => decidable_of_iff _ (isEqual_iff a b)

/-- The name of the kind of a value. -/
def kind : Value → String
  | bool _ => "bool"
  | int _ => "int"
  | float _ => "float"
  | instant _ => "datetime"
  | string _ => "string"
  | list _ => "list"

def isList : Value → Bool
  | list _ => true
  | _ => false

/-- The items of a list. -/
def items? : Value → Option (List Value)
  | list items => some items
  | _ => none

/-- The text of a string. -/
def text? : Value → Option String
  | string text => some text
  | _ => none

/-- The instant that a value is. -/
def instant? : Value → Option Instant
  | instant time => some time
  | _ => none

mutual

/-- A value as it is shown to a reader. Strings stand between quotes and are not
escaped. -/
def display : Value → List Char
  | bool truth => (if truth then "true" else "false").toList
  | int number => Text.signedDigits number.toInt
  | float number => NumberStyle.shown.write number
  | instant time => Timestamp.write .digits time
  | string text => '\'' :: text.toList ++ ['\'']
  | list items => '[' :: displayItems items ++ [']']

/-- Values with commas between them. -/
def displayItems : List Value → List Char
  | [] => []
  | [item] => display item
  | item :: items => display item ++ [',', ' '] ++ displayItems items

end

mutual

/-- Whether two values denote the same. -/
def sameValue : Value → Value → Bool
  | bool a, bool b => a = b
  | int a, int b => a = b
  | float a, float b => a.sameNumber b
  | instant a, instant b => a.sameTime b
  | string a, string b => a = b
  | list as, list bs => sameItems as bs
  | _, _ => false

/-- Whether two lists have the same length and denote the same at each place. -/
def sameItems : List Value → List Value → Bool
  | [], [] => true
  | a :: as, b :: bs => sameValue a b && sameItems as bs
  | _, _ => false

end

end Value

end ForumModeration
