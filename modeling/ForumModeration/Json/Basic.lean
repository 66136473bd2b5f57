import ForumModeration.Binary64.Scaled

/-!
# `ForumModeration.Json.Basic`: JSON documents as trees

A document is a tree of arrays and objects. The members of an object are kept in
order, also where a name is repeated. Numbers are kept as they are written, since
whether one is an integer and whether it is in range depends on what it is read
for. The floating-point number that one is read as (`float?`) is not always the
nearest.

Not every tree can be used. `isSound` says that all numbers are in range, that
all strings are texts and that the tree is not nested too deeply.
-/

set_option autoImplicit false

namespace ForumModeration

/-- A number as it is written: whether it has a sign, the digits of its whole part, the
digits after its point and its exponent. -/
structure Numeral where
  negative : Bool
  whole : List Char
  places : Option (List Char)
  power : Option Int
deriving DecidableEq, Repr

namespace Numeral

/-- Whether a numeral has neither a point nor an exponent. -/
def isInteger (n : Numeral) : Bool :=
  n.places.isNone && n.power.isNone

/-- The 64-bit integer that a numeral stands for. A negative zero is no integer. -/
def int64? (n : Numeral) : Option Int64 :=
  let magnitude := Text.numberOf n.whole
  if !n.isInteger then none
  else if n.negative then
    if 0 < magnitude && magnitude ≤ 0x8000000000000000 then some (.ofInt (-magnitude)) else none
  else if magnitude < 0x8000000000000000 then some (.ofNat magnitude)
  else none

/-- The 32-bit integer that a numeral stands for. -/
def int32? (n : Numeral) : Option Int32 := do
  let i ← n.int64?
  if -0x80000000 ≤ i.toInt ∧ i.toInt < 0x80000000 then some (.ofInt i.toInt) else none

/-- Puts digits behind a significand until one would take it beyond 64 bits. Returns the
significand and how many digits are left. -/
def gather (significand : Nat) : List Char → Nat × Nat
  | [] => (significand, 0)
  | c :: rest =>
    let longer := Nat.ofDigitChars 10 [c] significand
    if longer < 0x10000000000000000 then gather longer rest else (significand, rest.length + 1)

/-- A numeral as a decimal whose digits fit into 64 bits. -/
def truncated (n : Numeral) : Decimal :=
  let places := n.places.getD []
  let (whole, left) := gather 0 n.whole
  -- Where digits of the whole part are left, there may still be room for places.
  let (significand, dropped) := gather whole places
  ⟨significand, n.power.getD 0 + left + dropped - places.length⟩

/-- The floating-point number that a numeral is read as, if it is in range. The digits are
rounded before they are scaled. -/
def float? (n : Numeral) : Option Binary64 :=
  let x := Binary64.nearest false ⟨n.truncated.digits, 0⟩
  (x.scaled? n.truncated.exponent).map fun scaled =>
    .ofMagnitudeBits n.negative scaled.magnitudeBits

/-- Whether there is a number that a numeral can be read as. -/
def isInRange (n : Numeral) : Bool :=
  n.int64?.isSome || n.float?.isSome

end Numeral

/-- A JSON document. A string or a name whose escapes stand for half a surrogate
pair is no text and appears as `none`. -/
inductive Json where
  | null
  | bool (truth : Bool)
  | number (numeral : Numeral)
  | string (text : Option String)
  | array (items : List Json)
  | object (members : List (Option String × Json))
deriving Repr

namespace Json

mutual

/-- Whether a document can be used: numbers are in range, strings and names are
texts, and there are at most `depth` arrays and objects around anything. -/
def isSound (depth : Nat) : Json → Bool
  | null | bool _ => true
  | number numeral => numeral.isInRange
  | string text => text.isSome
  | array items => 0 < depth && areSound (depth - 1) items
  | object members => 0 < depth && membersAreSound (depth - 1) members

/-- Whether all items can be used. -/
def areSound (depth : Nat) : List Json → Bool
  | [] => true
  | item :: rest => isSound depth item && areSound depth rest

/-- Whether all members can be used. -/
def membersAreSound (depth : Nat) : List (Option String × Json) → Bool
  | [] => true
  | (name, value) :: rest =>
    name.isSome && isSound depth value && membersAreSound depth rest

end

/-- How many arrays and objects may be nested in a document. -/
def maxDepth : Nat := 127

/-- The numeral that a document is. -/
def numeral? : Json → Option Numeral
  | number numeral => some numeral
  | _ => none

/-- The text that a document is. -/
def text? : Json → Option String
  | string text => text
  | _ => none

/-- The truth value that a document is. -/
def truth? : Json → Option Bool
  | bool truth => some truth
  | _ => none

/-- The items of an array. -/
def items? : Json → Option (List Json)
  | array items => some items
  | _ => none

/-- The members of an object, if all names are texts. -/
def members? : Json → Option (List (String × Json))
  | object members => members.mapM fun (name, value) => name.map (·, value)
  | _ => none

end Json

end ForumModeration
