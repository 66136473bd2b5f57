import ForumModeration.Json.Document
import ForumModeration.ReviewRule

/-!
# `ForumModeration.Json.Decoding`: values and rules from documents

A record is an object with a member for each of its fields, or an array of its
fields in order. A field that is left out takes its default, if it has one.
Members of other names are ignored; a field may not be given twice. A tag is a
string, or an object whose only member has the tag as its name and `null` as its
value.

A string is read as an instant if it is a timestamp. Values and triggers have to
be sound as a whole, and together with what is around them they may not be
nested more than `maxDepth` deep.

Reading a rule ends with the check of its trigger, whose outcome is reported even
if the document goes on after the rule.
-/

set_option autoImplicit false

namespace ForumModeration

namespace Json

/-- The fields of a record, in the order of their names. -/
def fields? (names : List String) : Json → Option (List (Option Json))
  | array items =>
    -- Only fields at the end can be left out of an array.
    if items.length ≤ names.length then
      some (items.map some ++ List.replicate (names.length - items.length) none)
    else none
  | json => do
    let members ← json.members?
    names.mapM fun name =>
      match members.filter (·.1 = name) with
      | [] => some none
      | [(_, value)] => some (some value)
      | _ => none

/-- What a tag stands for. -/
def tagged? {α : Type} (ofTag? : String → Option α) : Json → Option α
  | string text => text.bind ofTag?
  | object [(name, null)] => name.bind ofTag?
  | _ => none

/-- A field that may be left out. -/
def orDefault? {α : Type} (default : α) (read? : Json → Option α) : Option Json → Option α
  | some json => read? json
  | none => some default

mutual

/-- The value that a document is. -/
def toValue? : Json → Option Value
  | bool truth => some (.bool truth)
  | number numeral =>
    match numeral.int64? with
    | some i => some (.int i)
    | none => numeral.float?.map .float
  | string (some text) =>
    match Timestamp.read? text.toList with
    | some instant => some (.instant instant)
    | none => some (.string text)
  | array items => (toValues? items).map .list
  | _ => none

/-- The values that documents are. -/
def toValues? : List Json → Option (List Value)
  | [] => some []
  | json :: rest => do return (← toValue? json) :: (← toValues? rest)

end

/-- The condition that a document is. -/
def toCondition? (json : Json) : Option Condition := do
  let [some field, some operator, some value] ← json.fields? ["field", "operator", "value"] | none
  return {
    field := ← field.tagged? Field.ofTag?
    operator := ← operator.tagged? Operator.ofTag?
    value := ← value.toValue? }

/-- The trigger that a document is. What is a condition is not read as a group. -/
def toTrigger? : Nat → Json → Option Trigger
  | 0, _ => none
  | depth + 1, json =>
    match json.toCondition? with
    | some condition => some (.condition condition)
    -- What fails to be a condition in any way is tried as a group.
    | none => do
      let [some logic, some children] ← json.fields? ["logic", "conditions"] | none
      let connective ← logic.tagged? Connective.ofTag?
      return .group connective (← (← children.items?).mapM (toTrigger? depth))

/-- The value that a sound document is. -/
def soundValue? (depth : Nat) (json : Json) : Option Value := do
  guard (json.isSound depth)
  json.toValue?

/-- The trigger that a sound document is. -/
def soundTrigger? (depth : Nat) (json : Json) : Option Trigger := do
  guard (json.isSound depth)
  json.toTrigger? depth

/-- The parameters that a document is. A repeated name replaces the value in its
place. -/
def toParams? (depth : Nat) (json : Json) : Option Params := do
  let members ← json.members?
  return .ofList (← members.mapM fun (name, value) => do
    return (name, ← value.soundValue? (depth - 1)))

/-- The action that a document is. -/
def toAction? (depth : Nat) (json : Json) : Option Action := do
  let [some kind, params] ← json.fields? ["type", "params"] | none
  return {
    kind := ← kind.tagged? ActionKind.ofTag?
    params := ← orDefault? ∅ (toParams? (depth - 1)) params }

/-- The actions that a document is. -/
def toActions? (depth : Nat) (json : Json) : Option (List Action) := do
  (← json.items?).mapM (toAction? (depth - 1))

/-- What `null` and anything else stand for where a field may be empty. -/
def orNull? {α : Type} (read? : Json → Option α) : Json → Option (Option α)
  | null => some none
  | json => (read? json).map some

/-- The fields of a rule. -/
def ruleFields : List String :=
  ["id", "fid", "forum_rule_id", "target_type", "name", "enabled", "priority", "trigger",
    "actions"]

/-- The draft of a rule that a document is. -/
def toDraft? (depth : Nat) (json : Json) : Option Draft := do
  let [id, fid, forumRuleId, target, some name, enabled, priority, some trigger, actions] ←
    json.fields? ruleFields | none
  let integer? (json : Json) : Option Int64 := json.numeral?.bind Numeral.int64?
  return {
    id := ← orDefault? 0 integer? id
    fid := ← orDefault? 0 integer? fid
    forumRuleId := ← orDefault? none (orNull? integer?) forumRuleId
    target := ← orDefault? .all (tagged? Target.ofTag?) target
    name := ← name.text?
    enabled := ← orDefault? true truth? enabled
    priority := ← orDefault? 0 (fun json => json.numeral?.bind Numeral.int32?) priority
    trigger := ← trigger.soundTrigger? (depth - 1)
    actions := ← orDefault? [] (toActions? (depth - 1)) actions }

/-- Why no rule is read from a text. -/
inductive LoadError where
  | malformed
  | incompatible (error : Incompatible)
deriving DecidableEq, Repr

end Json

/-- The value that a text is. -/
def Value.ofJson? (text : String) : Option Value := do
  (← Json.Document.ofText? text).soundValue? Json.maxDepth

/-- The trigger that a text is. -/
def Trigger.ofJson? (text : String) : Option Trigger := do
  (← Json.Document.ofText? text).soundTrigger? Json.maxDepth

/-- The action that a text is. -/
def Action.ofJson? (text : String) : Option Action := do
  (← Json.Document.ofText? text).toAction? Json.maxDepth

/-- The actions that a text is. -/
def Action.listOfJson? (text : String) : Option (List Action) := do
  (← Json.Document.ofText? text).toActions? Json.maxDepth

/-- The rule that a text is. -/
def ReviewRule.ofJson (text : String) : Except Json.LoadError ReviewRule :=
  let read? := do
    let (json, rest) ← Json.Document.read? text.toList
    return (← json.toDraft? Json.maxDepth, rest)
  match read? with
  | none => .error .malformed
  | some (draft, rest) =>
    match draft.build with
    | .error error => .error (.incompatible error)
    -- Only a rule that passes the check is held against what comes after it.
    | .ok rule => if (Json.Document.skipBlanks rest).isEmpty then .ok rule else .error .malformed

end ForumModeration
