import ForumModeration.ReviewRule

/-!
# `ForumModeration.Blob.Record`: what is stored of a rule

A record is a rule as it is stored: tags instead of fields, operators and
connectives, and bare numbers instead of instants. With it are stored how many
conditions and actions the rule has and the digest of the text it came from.

Any record can be written and read. Whether it is a rule's is checked in a fixed
order: target, trigger, actions, the two counts, and the fields of the trigger
against the target. The first violation is reported.
-/

set_option autoImplicit false

namespace ForumModeration.Blob

/-- A value as it is stored. -/
inductive Datum where
  | int (number : Int64)
  | float (number : Binary64)
  | bool (truth : Bool)
  | string (text : String)
  | instant (seconds : Int64) (nanos : UInt32) (offset : Int32)
  | list (items : List Datum)
deriving Repr

/-- A trigger as it is stored. -/
inductive Tree where
  | condition (field operator : String) (value : Datum)
  | group (connective : String) (children : List Tree)
deriving Repr

/-- An action as it is stored. -/
structure Call where
  kind : String
  params : List (String × Datum)
deriving Repr

/-- A rule as it is stored. -/
structure Record where
  conditionCount : Nat
  actionCount : Nat
  sourceDigest : Option (List UInt8)
  id : Int64
  fid : Int64
  forumRuleId : Option Int64
  target : String
  name : String
  enabled : Bool
  priority : Int32
  trigger : Tree
  actions : List Call
deriving Repr

/-- What keeps a record from being a rule's. -/
inductive Violation where
  | unknownTarget (tag : String)
  | unknownField (tag : String)
  | unknownOperator (tag : String)
  | unknownConnective (tag : String)
  | unknownAction (tag : String)
  | offsetOutOfRange (offset : Int32)
  | timeOutOfRange (seconds : Int64) (nanos : UInt32)
  | listNeeded (field : Field) (kind : String)
  | wrongArity (connective : Connective) (count : Nat)
  | wrongConditionCount (stored found : Nat)
  | wrongActionCount (stored found : Nat)
  | incompatible (error : Incompatible)
deriving DecidableEq, Repr

/-- What is said of a violation. -/
def Violation.message : Violation → String
  | unknownTarget tag => Target.unknownMessage tag
  | unknownField tag => "unknown field '" ++ tag ++ "'"
  | unknownOperator tag => "unknown operator '" ++ tag ++ "'"
  | unknownConnective tag => "unknown connective '" ++ tag ++ "'"
  | unknownAction tag => "unknown action type '" ++ tag ++ "'"
  | offsetOutOfRange offset =>
    "offset " ++ String.ofList (Text.signedDigits offset.toInt) ++ "s out of range"
  | timeOutOfRange seconds nanos =>
    "timestamp " ++ String.ofList (Text.signedDigits seconds.toInt) ++ "." ++
      Text.decimal nanos.toNat ++ " out of range"
  | listNeeded field kind => "'in' condition on " ++ field.tag ++ " has a " ++ kind ++ " value"
  | wrongArity connective count =>
    connective.tag ++ " group with " ++ Text.decimal count ++ " children"
  | wrongConditionCount stored found =>
    "metadata says " ++ Text.decimal stored ++ " conditions but payload has " ++
      Text.decimal found
  | wrongActionCount stored found =>
    "metadata says " ++ Text.decimal stored ++ " actions but payload has " ++ Text.decimal found
  | incompatible error => error.message

/-! ### From rules to records -/

mutual

/-- The datum of a value. -/
def Datum.ofValue : Value → Datum
  | .bool truth => .bool truth
  | .int number => .int number
  | .float number => .float number
  | .instant time =>
    .instant (.ofInt time.seconds) (.ofNat time.nanos) (.ofInt time.offset.seconds)
  | .string text => .string text
  | .list items => .list (Datum.ofValues items)

/-- The data of values. -/
def Datum.ofValues : List Value → List Datum
  | [] => []
  | value :: rest => Datum.ofValue value :: Datum.ofValues rest

end

mutual

/-- The tree of a trigger. -/
def Tree.ofTrigger : Trigger → Tree
  | .condition c => .condition c.field.tag c.operator.tag (.ofValue c.value)
  | .group connective children => .group connective.tag (Tree.ofTriggers children)

/-- The trees of triggers. -/
def Tree.ofTriggers : List Trigger → List Tree
  | [] => []
  | trigger :: rest => Tree.ofTrigger trigger :: Tree.ofTriggers rest

end

/-- The call of an action. -/
def Call.ofAction (action : Action) : Call where
  kind := action.kind.tag
  params := action.params.entries.map fun entry => (entry.1, .ofValue entry.2)

/-- The record of a rule, with the digest of the text it came from. -/
def Record.ofRule (rule : ReviewRule) (sourceDigest : Option (List UInt8)) : Record where
  conditionCount := rule.trigger.conditions.length
  actionCount := rule.actions.length
  sourceDigest := sourceDigest
  id := rule.id
  fid := rule.fid
  forumRuleId := rule.forumRuleId
  target := rule.target.tag
  name := rule.name
  enabled := rule.enabled
  priority := rule.priority
  trigger := .ofTrigger rule.trigger
  actions := rule.actions.map .ofAction

/-! ### From records to rules -/

/-- What a tag stands for, or else a violation. -/
def known {α : Type} (ofTag? : String → Option α) (violation : String → Violation)
    (tag : String) : Except Violation α :=
  match ofTag? tag with
  | some a => .ok a
  | none => .error (violation tag)

/-- The instant of stored numbers. -/
def instant (seconds : Int64) (nanos : UInt32) (offset : Int32) : Except Violation Instant :=
  match Offset.ofSeconds? offset.toInt with
  | none => .error (.offsetOutOfRange offset)
  | some o =>
    match Instant.ofUnix? seconds.toInt nanos.toNat o with
    | none => .error (.timeOutOfRange seconds nanos)
    | some time => .ok time

mutual

/-- The value of a datum. -/
def Datum.toValue : Datum → Except Violation Value
  | .int number => .ok (.int number)
  | .float number => .ok (.float number)
  | .bool truth => .ok (.bool truth)
  | .string text => .ok (.string text)
  | .instant seconds nanos offset => .instant <$> Blob.instant seconds nanos offset
  | .list items => .list <$> Datum.toValues items

/-- The values of data. -/
def Datum.toValues : List Datum → Except Violation (List Value)
  | [] => .ok []
  | datum :: rest => do
    let value ← Datum.toValue datum
    return value :: (← Datum.toValues rest)

end

/-- The condition that was stored. Membership needs a list. -/
def condition (fieldTag operatorTag : String) (datum : Datum) : Except Violation Condition := do
  let field ← known Field.ofTag? .unknownField fieldTag
  let operator ← known Operator.ofTag? .unknownOperator operatorTag
  let value ← datum.toValue
  if operator = .among && !value.isList then .error (.listNeeded field value.kind)
  else return ⟨field, operator, value⟩

mutual

/-- The trigger of a tree. -/
def Tree.toTrigger : Tree → Except Violation Trigger
  | .condition field operator value => .condition <$> Blob.condition field operator value
  | .group tag children => do
    let connective ← known Connective.ofTag? .unknownConnective tag
    if connective.acceptsArity children.length then
      .group connective <$> Tree.toTriggers children
    else .error (.wrongArity connective children.length)

/-- The triggers of trees. -/
def Tree.toTriggers : List Tree → Except Violation (List Trigger)
  | [] => .ok []
  | tree :: rest => do
    let trigger ← Tree.toTrigger tree
    return trigger :: (← Tree.toTriggers rest)

end

/-- The action of a call. A repeated name replaces the value in its place. -/
def Call.toAction (call : Call) : Except Violation Action := do
  let kind ← known ActionKind.ofTag? .unknownAction call.kind
  let entries ← call.params.mapM fun (name, datum) => do
    return (name, ← datum.toValue)
  return { kind, params := .ofList entries }

/-- The rule of a record, or else its first violation. -/
def Record.toRule (record : Record) : Except Violation ReviewRule := do
  let target ← known Target.ofTag? .unknownTarget record.target
  let trigger ← record.trigger.toTrigger
  let actions ← record.actions.mapM Call.toAction
  -- The counts are those of the tree as it was read.
  let conditionCount := trigger.conditions.length
  if record.conditionCount ≠ conditionCount then
    .error (.wrongConditionCount record.conditionCount conditionCount)
  else if record.actionCount ≠ actions.length then
    .error (.wrongActionCount record.actionCount actions.length)
  else
    let draft : Draft :=
      { name := record.name, trigger, id := record.id, fid := record.fid
        forumRuleId := record.forumRuleId, target, enabled := record.enabled
        priority := record.priority, actions }
    draft.build.mapError .incompatible

end ForumModeration.Blob
