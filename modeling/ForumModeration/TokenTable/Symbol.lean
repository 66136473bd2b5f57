import ForumModeration.Action
import ForumModeration.Connective
import ForumModeration.Field
import ForumModeration.Operator

/-!
# `ForumModeration.TokenTable.Symbol`: what tokens stand for

Rules are written in two languages: the compact `dsl` and the Chinese `cnl`. Both
have the same symbols and spell them differently. A symbol is a field, an
operator, a connective, a kind of action, or one of the small words and signs
that hold a rule together.
-/

set_option autoImplicit false

namespace ForumModeration

/-- The languages of rule text. -/
inductive Mode where
  | dsl
  | cnl
deriving DecidableEq, Repr

namespace Mode

/-- The name of a language. -/
def tag : Mode → String
  | dsl => "dsl"
  | cnl => "cnl"

/-- The language of the given name, in letters of either case. -/
def ofTag? (text : String) : Option Mode :=
  let lower := text.toList.map Char.toLower
  if lower = "dsl".toList then some dsl
  else if lower = "cnl".toList then some cnl
  else none

/-- What is said of a text that names no language. -/
def unknownMessage (text : String) : String :=
  "unknown mode '" ++ text ++ "', expected 'dsl' or 'cnl'"

end Mode

/-- The signs of rule text. -/
inductive Punctuation where
  | leftParen
  | rightParen
  | leftBracket
  | rightBracket
  | comma
  | colon
  | assign
deriving DecidableEq, Repr

/-- The name of a sign in messages. -/
def Punctuation.name : Punctuation → String
  | leftParen => "LParen"
  | rightParen => "RParen"
  | leftBracket => "LBracket"
  | rightBracket => "RBracket"
  | comma => "Comma"
  | colon => "Colon"
  | assign => "Assign"

/-- The units of relative times. -/
inductive TimeUnit where
  | day
  | hour
  | minute
  | second
deriving DecidableEq, Repr

namespace TimeUnit

/-- The name of a unit in messages. -/
def name : TimeUnit → String
  | day => "Day"
  | hour => "Hour"
  | minute => "Minute"
  | second => "Second"

/-- The length of a unit in seconds. -/
def seconds : TimeUnit → Nat
  | day => 86400
  | hour => 3600
  | minute => 60
  | second => 1

/-- An amount of a unit in seconds. A span has to fit 64 bits when it is counted
in milliseconds. -/
def span? (unit : TimeUnit) (amount : Int) : Option Int :=
  let span := amount * unit.seconds
  if -9223372036854775 ≤ span ∧ span ≤ 9223372036854775 then some span else none

end TimeUnit

/-- What a token can stand for. -/
inductive Symbol where
  | field (field : Field)
  | operator (operator : Operator)
  | connective (connective : Connective)
  | action (kind : ActionKind)
  | truth (value : Bool)
  | now
  | unit (unit : TimeUnit)
  | ago
  | actionPrefix
  | punctuation (sign : Punctuation)
deriving DecidableEq, Repr

/-- A symbol as messages call it. -/
def Symbol.describe : Symbol → String
  | field f => "field '" ++ f.tag ++ "'"
  | operator o => "operator '" ++ o.tag ++ "'"
  | connective c => "connective '" ++ c.tag ++ "'"
  | action k => "action '" ++ k.tag ++ "'"
  | truth true => "boolean 'true'"
  | truth false => "boolean 'false'"
  | now => "keyword 'now'"
  | unit u => "time unit " ++ u.name
  | ago => "keyword 'ago'"
  | actionPrefix => "action prefix"
  | punctuation p => "punctuation " ++ p.name

end ForumModeration
