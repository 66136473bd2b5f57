import ForumModeration.Json.Quoted
import ForumModeration.ReviewRule

/-!
# `ForumModeration.Json.Encoding`: values and rules as documents

Documents are written without blanks. Values become truth values, numbers,
strings and arrays; instants become strings. A floating-point number always
shows a point or an exponent, so that it is not taken for an integer, and one
that is not finite becomes `null`. Triggers, actions and rules become objects
with their fields in a fixed order.
-/

set_option autoImplicit false

namespace ForumModeration

namespace Json

/-- An array of items that are written already. -/
def writeArray (items : List (List Char)) : List Char :=
  '[' :: [','].intercalate items ++ [']']

/-- An object with members that are written already. -/
def writeObject (members : List (String × List Char)) : List Char :=
  let member (entry : String × List Char) := Quoted.encode entry.1.toList ++ ':' :: entry.2
  '\x7b' :: [','].intercalate (members.map member) ++ ['\x7d']

/-- A string. -/
def writeString (text : String) : List Char :=
  Quoted.encode text.toList

/-- A truth value. -/
def writeBool (truth : Bool) : List Char :=
  (if truth then "true" else "false").toList

/-- A floating-point number. -/
def writeFloat (x : Binary64) : List Char :=
  if x.isFinite then NumberStyle.json.write x else "null".toList

mutual

/-- A value. -/
def writeValue : Value → List Char
  | .bool truth => writeBool truth
  | .int i => Text.signedDigits i.toInt
  | .float x => writeFloat x
  | .instant time => Quoted.encode (Timestamp.write .letter time)
  | .string text => writeString text
  | .list items => writeArray (writeValues items)

/-- Values, each by itself. -/
def writeValues : List Value → List (List Char)
  | [] => []
  | value :: rest => writeValue value :: writeValues rest

end

/-- A condition. -/
def writeCondition (c : Condition) : List Char :=
  writeObject [("field", writeString c.field.tag), ("operator", writeString c.operator.tag),
    ("value", writeValue c.value)]

mutual

/-- A trigger. -/
def writeTrigger : Trigger → List Char
  | .condition c => writeCondition c
  | .group connective children =>
    writeObject [("logic", writeString connective.tag),
      ("conditions", writeArray (writeTriggers children))]

/-- Triggers, each by itself. -/
def writeTriggers : List Trigger → List (List Char)
  | [] => []
  | trigger :: rest => writeTrigger trigger :: writeTriggers rest

end

/-- An action. -/
def writeAction (action : Action) : List Char :=
  writeObject [("type", writeString action.kind.tag),
    ("params", writeObject (action.params.entries.map fun entry => (entry.1, writeValue entry.2)))]

/-- Actions. -/
def writeActions (actions : List Action) : List Char :=
  writeArray (actions.map writeAction)

/-- A rule. -/
def writeRule (rule : ReviewRule) : List Char :=
  let integer (n : Int64) := Text.signedDigits n.toInt
  writeObject [("id", integer rule.id), ("fid", integer rule.fid),
    ("forum_rule_id", rule.forumRuleId.elim "null".toList integer),
    ("target_type", writeString rule.target.tag), ("name", writeString rule.name),
    ("enabled", writeBool rule.enabled), ("priority", Text.signedDigits rule.priority.toInt),
    ("trigger", writeTrigger rule.trigger), ("actions", writeActions rule.actions)]

end Json

/-- A value as a JSON text. -/
def Value.toJson (value : Value) : String :=
  String.ofList (Json.writeValue value)

/-- A trigger as a JSON text. -/
def Trigger.toJson (trigger : Trigger) : String :=
  String.ofList (Json.writeTrigger trigger)

/-- An action as a JSON text. -/
def Action.toJson (action : Action) : String :=
  String.ofList (Json.writeAction action)

/-- Actions as a JSON text. -/
def Action.listToJson (actions : List Action) : String :=
  String.ofList (Json.writeActions actions)

/-- A rule as a JSON text. -/
def ReviewRule.toJson (rule : ReviewRule) : String :=
  String.ofList (Json.writeRule rule)

end ForumModeration
