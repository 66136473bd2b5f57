import ForumModeration.Json.Decoding
import ForumModeration.Proofs.Actions
import ForumModeration.Proofs.Calendar.Timestamps
import ForumModeration.Proofs.Compatibility
import ForumModeration.Proofs.Json.Documents
import ForumModeration.Proofs.Json.Floats

/-!
# `ForumModeration.Proofs.Json.Reloading`: what comes back from JSON

JSON has no instants. They are written as strings, and a string is read as an instant if it is
a timestamp. So every string that is a timestamp comes back as an instant. A floating-point number
comes back as its digits are read. All else comes back as it was (`reloaded`), provided that it can
be told from what is written (`Value.Portable`).

For values, triggers, actions and rules there is one lemma each. It says that what is written
is a document, how deeply the document is nested (`nesting`), and that what is read from it is
the reloaded thing, or nothing if it is nested too deeply. Nothing that is written is read as
another kind of thing: the numbers of floating-point numbers are no integers, and a group has no
field, operator or value, so it is not taken for a condition.
-/

set_option autoImplicit false

namespace ForumModeration

/-! ### What is read back -/

/-- A list stays as it is exactly if each of its items does. -/
theorem map_eq_self_iff {α : Type} {f : α → α} {items : List α} :
    items.map f = items ↔ ∀ item ∈ items, f item = item := by
  conv => lhs; rhs; rw [← List.map_id items]
  exact List.map_inj_left

namespace Value

/-- A scalar can be told from what JSON says of it: numbers are finite and instants are shown
in full. -/
def Portable : Value → Prop
  | float number => number.isFinite = true
  | instant time => time.Portable
  | _ => True

mutual

/-- A value as it comes back from JSON: strings that are timestamps have become instants, and
floating-point numbers what their digits are read as. -/
def reloaded : Value → Value
  | float number => float number.reread
  | string text => (Timestamp.read? text.toList).elim (string text) instant
  | list items => list (allReloaded items)
  | v => v

/-- Several values as they come back from JSON. -/
def allReloaded : List Value → List Value
  | [] => []
  | item :: items => reloaded item :: allReloaded items

end

@[simp] theorem reloaded_list (items : List Value) :
    (list items).reloaded = list (items.map reloaded) :=
  congrArg list (eq_map_of_cons (f := allReloaded) rfl fun _ _ => rfl)

mutual

/-- How many arrays are in each other where a value is written. -/
def nesting : Value → Nat
  | list items => deepest items + 1
  | _ => 0

/-- How many arrays are in each other in any of several values. -/
def deepest : List Value → Nat
  | [] => 0
  | item :: items => max (nesting item) (deepest items)

end

@[simp] theorem nesting_list (items : List Value) :
    (list items).nesting = (items.map nesting).foldr max 0 + 1 :=
  congrArg (· + 1) (eq_foldr_of_cons (f := deepest) rfl fun _ _ => rfl)

/-- A scalar comes back from JSON as it was written: a number is read as itself, and a string is
no timestamp. -/
def Stays : Value → Prop
  | float number => number.reread = number
  | string text => Timestamp.read? text.toList = none
  | _ => True

/-- Only numbers and strings can change. -/
theorem forall_stays_iff {scalars : List Value} : (∀ s ∈ scalars, s.Stays) ↔
    (∀ text, string text ∈ scalars → Timestamp.read? text.toList = none) ∧
      ∀ number, float number ∈ scalars → number.reread = number := by
  constructor
  · intro h
    exact ⟨fun _ mem => h _ mem, fun _ mem => h _ mem⟩
  · rintro ⟨texts, numbers⟩ s mem
    cases s with
    | float number => exact numbers number mem
    | string text => exact texts text mem
    | _ => trivial

/-- A value comes back as it was exactly if all its scalars do. -/
theorem reloaded_eq_self_iff {v : Value} : v.reloaded = v ↔ ∀ s ∈ v.scalars, s.Stays := by
  induction v using Value.induction with
  | scalar v noList =>
    rw [scalars_of_isList noList, List.forall_mem_singleton]
    cases v with
    | float number => rw [reloaded, float.injEq, Stays]
    | string text =>
      rw [reloaded, Stays]
      cases Timestamp.read? text.toList with
      | none => exact ⟨fun _ => rfl, fun _ => rfl⟩
      | some time => constructor <;> intro h <;> cases h
    | list items => cases noList
    | _ => exact ⟨fun _ => trivial, fun _ => rfl⟩
  | list items ih =>
    rw [reloaded_list, list.injEq, scalars_list, map_eq_self_iff]
    simp only [List.mem_flatMap]
    constructor
    · rintro same s ⟨item, mem, found⟩
      exact (ih item mem).mp (same item mem) s found
    · intro h item mem
      exact (ih item mem).mpr fun s found => h s ⟨item, mem, found⟩

end Value

namespace Trigger

/-- The scalars of all conditions. -/
def scalars (t : Trigger) : List Value :=
  t.conditions.flatMap fun c => c.value.scalars

mutual

/-- A trigger as it comes back from JSON. -/
def reloaded : Trigger → Trigger
  | condition c => condition { c with value := c.value.reloaded }
  | group connective children => group connective (allReloaded children)

/-- Several triggers as they come back from JSON. -/
def allReloaded : List Trigger → List Trigger
  | [] => []
  | child :: rest => reloaded child :: allReloaded rest

end

variable {connective : Connective} {children : List Trigger}

@[simp] theorem reloaded_group :
    (group connective children).reloaded = group connective (children.map reloaded) :=
  congrArg (group connective) (eq_map_of_cons (f := allReloaded) rfl fun _ _ => rfl)

mutual

/-- How many arrays and objects are in each other where a trigger is written. A group is an
object with an array around its children. -/
def nesting : Trigger → Nat
  | condition c => c.value.nesting + 1
  | group _ children => deepest children + 2

/-- How many arrays and objects are in each other in any of several triggers. -/
def deepest : List Trigger → Nat
  | [] => 0
  | child :: rest => max (nesting child) (deepest rest)

end

@[simp] theorem nesting_group :
    (group connective children).nesting = (children.map nesting).foldr max 0 + 2 :=
  congrArg (· + 2) (eq_foldr_of_cons (f := deepest) rfl fun _ _ => rfl)

@[simp] theorem scalars_group :
    (group connective children).scalars = children.flatMap scalars := by
  rw [scalars, conditions_group, List.flatMap_assoc]
  rfl

theorem reloaded_eq_self_iff {t : Trigger} : t.reloaded = t ↔ ∀ s ∈ t.scalars, s.Stays := by
  induction t using Trigger.induction with
  | condition c =>
    obtain ⟨field, operator, value⟩ := c
    have own : scalars (condition ⟨field, operator, value⟩) = value.scalars := by
      simp [scalars, conditions]
    rw [own, ← Value.reloaded_eq_self_iff, reloaded, condition.injEq, Condition.mk.injEq]
    exact ⟨fun h => h.2.2, fun h => ⟨rfl, rfl, h⟩⟩
  | group connective children ih =>
    rw [reloaded_group, group.injEq, scalars_group, map_eq_self_iff]
    simp only [List.mem_flatMap, true_and]
    constructor
    · rintro same s ⟨child, mem, found⟩
      exact (ih child mem).mp (same child mem) s found
    · intro h child mem
      exact (ih child mem).mpr fun s found => h s ⟨child, mem, found⟩

/-- The fields of a trigger are those that it had. -/
theorem fields_reloaded (t : Trigger) :
    t.reloaded.conditions.map Condition.field = t.conditions.map Condition.field := by
  induction t using Trigger.induction with
  | condition c => rfl
  | group connective children ih =>
    rw [reloaded_group, conditions_group, conditions_group, List.flatMap_map, List.map_flatMap,
      List.map_flatMap]
    exact List.flatMap_congr ih

end Trigger

namespace Params

/-- The scalars of all parameters. -/
def scalars (params : Params) : List Value :=
  params.entries.flatMap fun entry => entry.2.scalars

/-- Parameters as they come back from JSON. -/
def reloaded (params : Params) : Params where
  entries := params.entries.map fun entry => (entry.1, entry.2.reloaded)
  distinct := by
    rw [List.map_map]
    exact params.distinct

/-- How many arrays and objects are in each other where parameters are written. -/
def nesting (params : Params) : Nat :=
  (params.entries.map fun entry => entry.2.nesting).foldr max 0 + 1

theorem reloaded_eq_self_iff {params : Params} :
    params.reloaded = params ↔ ∀ s ∈ params.scalars, s.Stays := by
  obtain ⟨entries, distinct⟩ := params
  rw [reloaded, mk.injEq, map_eq_self_iff]
  simp only [scalars, List.mem_flatMap]
  constructor
  · rintro same s ⟨entry, mem, found⟩
    exact Value.reloaded_eq_self_iff.mp (congrArg Prod.snd (same entry mem)) s found
  · intro h entry mem
    rw [Value.reloaded_eq_self_iff.mpr fun s found => h s ⟨entry, mem, found⟩]

end Params

namespace Action

/-- An action as it comes back from JSON. -/
def reloaded (action : Action) : Action :=
  { action with params := action.params.reloaded }

/-- How many arrays and objects are in each other where an action is written. -/
def nesting (action : Action) : Nat :=
  action.params.nesting + 1

/-- How many arrays and objects are in each other where actions are written. -/
def nestingOf (actions : List Action) : Nat :=
  (actions.map nesting).foldr max 0 + 1

theorem reloaded_eq_self_iff {action : Action} :
    action.reloaded = action ↔ ∀ s ∈ action.params.scalars, s.Stays := by
  obtain ⟨kind, params⟩ := action
  rw [reloaded, mk.injEq, and_iff_right rfl]
  exact Params.reloaded_eq_self_iff

end Action

namespace ReviewRule

/-- The scalars of a rule: those of its trigger and those of its actions. -/
def scalars (rule : ReviewRule) : List Value :=
  rule.trigger.scalars ++ rule.actions.flatMap fun action => action.params.scalars

/-- A rule as it comes back from JSON. -/
def reloaded (rule : ReviewRule) : ReviewRule :=
  { rule with
    trigger := rule.trigger.reloaded
    actions := rule.actions.map Action.reloaded
    compatible := by
      intro c mem
      have field := List.mem_map_of_mem (f := Condition.field) mem
      rw [Trigger.fields_reloaded] at field
      obtain ⟨own, listed, same⟩ := List.mem_map.mp field
      exact same ▸ rule.compatible own listed }

/-- How many arrays and objects are in each other where a rule is written. -/
def nesting (rule : ReviewRule) : Nat :=
  max rule.trigger.nesting (Action.nestingOf rule.actions) + 1

theorem reloaded_eq_self_iff {rule : ReviewRule} :
    rule.reloaded = rule ↔ ∀ s ∈ rule.scalars, s.Stays := by
  have parts : rule.reloaded = rule ↔
      rule.trigger.reloaded = rule.trigger ∧ ∀ action ∈ rule.actions, action.reloaded = action := by
    rw [← map_eq_self_iff]
    obtain ⟨⟨⟩, compatible⟩ := rule
    rw [reloaded, mk.injEq, Draft.mk.injEq]
    simp only [true_and]
  rw [parts, Trigger.reloaded_eq_self_iff]
  simp only [scalars, List.mem_append, List.mem_flatMap, Action.reloaded_eq_self_iff]
  constructor
  · rintro ⟨trigger, actions⟩ s (found | ⟨action, mem, found⟩)
    · exact trigger s found
    · exact actions action mem s found
  · intro h
    exact ⟨fun s found => h s (.inl found),
      fun action mem s found => h s (.inr ⟨action, mem, found⟩)⟩

end ReviewRule

/-! ### Lists of documents -/

namespace Json

open Document

instance : Inhabited Json := ⟨null⟩

section

variable {α : Type} {items : List α} {document : α → Json}

/-- If each item is written as its document, then the items are written as their documents. -/
theorem forall₂_written {write : α → List Char}
    (each : ∀ item ∈ items, Written (write item) (document item)) :
    List.Forall₂ Written (items.map write) (items.map document) := by
  rw [List.forall₂_map_left_iff, List.forall₂_map_right_iff]
  exact List.forall₂_same.mpr each

theorem nestingOf_map {nests : α → Nat}
    (each : ∀ item ∈ items, (document item).nesting = nests item) :
    nestingOf (items.map document) = (items.map nests).foldr max 0 := by
  rw [nestingOf_eq_foldr, List.map_map]
  exact congrArg (List.foldr max 0) (List.map_congr_left each)

end

section

variable {α β γ : Type} {items : List α} {part : α → β} {read? : β → Option γ} {result : α → γ}

/-- What is read from the parts of some items, if only what fits is read. -/
theorem mapM_map_eq_ite {fits : α → Prop} [DecidablePred fits]
    (each : ∀ item ∈ items, read? (part item) = if fits item then some (result item) else none) :
    (items.map part).mapM read? =
      if ∀ item ∈ items, fits item then some (items.map result) else none := by
  induction items with
  | nil => rfl
  | cons item items ih =>
    obtain ⟨first, others⟩ := List.forall_mem_cons.mp each
    simp only [List.map_cons, List.mapM_cons, first, ih others, List.forall_mem_cons]
    by_cases one : fits item
    · simp only [one, if_true, true_and]
      split <;> rfl
    · simp only [one, if_false, false_and]
      rfl

/-- What is read from the parts of some items, if all is read. -/
theorem mapM_map_eq_some (each : ∀ item ∈ items, read? (part item) = some (result item)) :
    (items.map part).mapM read? = some (items.map result) := by
  induction items with
  | nil => rfl
  | cons item items ih =>
    obtain ⟨first, others⟩ := List.forall_mem_cons.mp each
    rw [List.map_cons, List.mapM_cons, first, ih others]
    rfl

end

/-! ### Values -/

theorem writeValues_eq_map (values : List Value) :
    writeValues values = values.map writeValue :=
  eq_map_of_cons rfl fun _ _ => rfl

theorem toValues?_eq_mapM (items : List Json) : toValues? items = items.mapM toValue? := by
  induction items with
  | nil => rfl
  | cons item items ih => rw [toValues?, ih, List.mapM_cons]

/-- A value is written as a document, from which it is read. -/
theorem value_written {v : Value} (portable : ∀ s ∈ v.scalars, s.Portable) :
    ∃ json, Written (writeValue v) json ∧ json.nesting = v.nesting ∧
      json.toValue? = some v.reloaded := by
  induction v using Value.induction with
  | scalar v noList =>
    rw [Value.scalars_of_isList noList, List.forall_mem_singleton] at portable
    cases v with
    | bool truth => exact ⟨.bool truth, written_bool truth, rfl, rfl⟩
    | int i =>
      obtain ⟨n, reads, whole, inRange⟩ := int64_recovers i
      refine ⟨.number n, written_number reads inRange, rfl, ?_⟩
      rw [toValue?, whole]
      rfl
    | float x =>
      obtain ⟨n, reads, noInteger, read⟩ := float_recovers portable
      have inRange : n.isInRange = true := by
        rw [Numeral.isInRange, read]
        exact Bool.or_true _
      refine ⟨.number n, written_number reads inRange, rfl, ?_⟩
      rw [toValue?, noInteger]
      exact congrArg (Option.map Value.float) read
    | instant time =>
      refine ⟨_, written_quoted _, rfl, ?_⟩
      rw [toValue?, String.toList_ofList, Timestamp.read?_write portable]
      rfl
    | string text =>
      refine ⟨_, written_string text, rfl, ?_⟩
      rw [toValue?, Value.reloaded]
      cases Timestamp.read? text.toList <;> rfl
    | list items => cases noList
  | list items ih =>
    have each : ∀ item ∈ items, ∃ json, Written (writeValue item) json ∧
        json.nesting = item.nesting ∧ json.toValue? = some item.reloaded := fun item mem =>
      ih item mem fun s found => portable s (by
        rw [Value.scalars_list]
        exact List.mem_flatMap.mpr ⟨item, mem, found⟩)
    choose! document written nests read using each
    refine ⟨.array (items.map document), ?_, ?_, ?_⟩
    · rw [writeValue, writeValues_eq_map]
      exact written_array (forall₂_written written)
    · rw [nesting, nestingOf_map nests, Value.nesting_list]
    · rw [toValue?, toValues?_eq_mapM, mapM_map_eq_some read, Value.reloaded_list]
      rfl

/-- Whether a document that can be used is sound depends on how deeply it is nested. -/
private theorem guard_isSound {α : Type} {json : Json} (usable : json.Usable) (depth : Nat)
    (read : Option α) :
    (do guard (json.isSound depth); read) = if json.nesting ≤ depth then read else none := by
  by_cases fits : json.nesting ≤ depth
  · rw [if_pos fits, (usable depth).mpr fits]
    rfl
  · rw [if_neg fits, Bool.eq_false_iff.mpr fun sound => fits ((usable depth).mp sound)]
    rfl

/-- A value is read from a sound document. -/
theorem soundValue?_eq {json : Json} {v : Value} (usable : json.Usable)
    (read : json.toValue? = some v) (depth : Nat) :
    json.soundValue? depth = if json.nesting ≤ depth then some v else none := by
  rw [← read]
  exact guard_isSound usable depth json.toValue?

/-! ### Triggers -/

theorem writeTriggers_eq_map (triggers : List Trigger) :
    writeTriggers triggers = triggers.map writeTrigger :=
  eq_map_of_cons rfl fun _ _ => rfl

/-- The document of a condition. -/
private def conditionDocument (c : Condition) (value : Json) : Json :=
  .object [(some "field", .string (some c.field.tag)),
    (some "operator", .string (some c.operator.tag)), (some "value", value)]

/-- The document of a group. -/
private def groupDocument (connective : Connective) (children : List Json) : Json :=
  .object [(some "logic", .string (some connective.tag)), (some "conditions", .array children)]

private theorem toCondition?_conditionDocument {c : Condition} {value : Json} {v : Value}
    (read : value.toValue? = some v) :
    (conditionDocument c value).toCondition? = some { c with value := v } := by
  have field : tagged? Field.ofTag? (.string (some c.field.tag)) = some c.field :=
    Field.ofTag?_tag c.field
  have operator : tagged? Operator.ofTag? (.string (some c.operator.tag)) = some c.operator :=
    Operator.ofTag?_tag c.operator
  exact Option.bind_eq_some_iff.mpr ⟨_, field, Option.bind_eq_some_iff.mpr
    ⟨_, operator, Option.bind_eq_some_iff.mpr ⟨_, read, rfl⟩⟩⟩

/-- A group has none of the fields of a condition. -/
private theorem toCondition?_groupDocument (connective : Connective) (children : List Json) :
    (groupDocument connective children).toCondition? = none := rfl

private theorem toTrigger?_groupDocument {connective : Connective} {documents : List Json}
    {children : List Trigger} {depth : Nat}
    (read : documents.mapM (toTrigger? depth) = some children) :
    (groupDocument connective documents).toTrigger? (depth + 1)
      = some (.group connective children) := by
  have logic : tagged? Connective.ofTag? (.string (some connective.tag)) = some connective :=
    Connective.ofTag?_tag connective
  rw [toTrigger?, toCondition?_groupDocument]
  refine Option.bind_eq_some_iff.mpr ⟨[some _, some _], rfl, ?_⟩
  refine Option.bind_eq_some_iff.mpr ⟨_, logic, ?_⟩
  refine Option.bind_eq_some_iff.mpr ⟨documents, rfl, ?_⟩
  exact Option.bind_eq_some_iff.mpr ⟨_, read, rfl⟩

/-- A trigger is written as a document, from which it is read if there are enough levels. -/
theorem trigger_written {t : Trigger} (portable : ∀ s ∈ t.scalars, s.Portable) :
    ∃ json, Written (writeTrigger t) json ∧ json.nesting = t.nesting ∧
      ∀ {depth}, t.nesting ≤ depth → json.toTrigger? depth = some t.reloaded := by
  induction t using Trigger.induction with
  | condition c =>
    obtain ⟨value, written, nests, read⟩ := value_written (v := c.value) (by
      simpa [Trigger.scalars, Trigger.conditions] using portable)
    refine ⟨conditionDocument c value, ?_, ?_, ?_⟩
    · exact written_object (.cons (written_string _) (.cons (written_string _)
        (.cons written .nil)))
    · simp only [conditionDocument, nesting, nestingOfMembers, nests, Trigger.nesting]
      omega
    · intro depth enough
      cases depth with
      | zero => cases enough
      | succ depth =>
        rw [toTrigger?, toCondition?_conditionDocument read]
        rfl
  | group connective children ih =>
    have each : ∀ child ∈ children, ∃ json, Written (writeTrigger child) json ∧
        json.nesting = child.nesting ∧
        ∀ {depth}, child.nesting ≤ depth → json.toTrigger? depth = some child.reloaded :=
      fun child mem => ih child mem fun s found => portable s (by
        rw [Trigger.scalars_group]
        exact List.mem_flatMap.mpr ⟨child, mem, found⟩)
    choose! document written nests read using each
    refine ⟨groupDocument connective (children.map document), ?_, ?_, ?_⟩
    · rw [writeTrigger, writeTriggers_eq_map]
      exact written_object (.cons (written_string _)
        (.cons (written_array (forall₂_written written)) .nil))
    · simp only [groupDocument, nesting, nestingOfMembers, nestingOf_map nests,
        Trigger.nesting_group]
      omega
    · intro depth enough
      rw [Trigger.nesting_group] at enough
      cases depth with
      | zero => cases enough
      | succ depth =>
        -- The object and the array around the children take up two levels.
        have inner : ∀ child ∈ children, child.nesting ≤ depth := foldr_max_le.mp (by omega)
        rw [Trigger.reloaded_group]
        exact toTrigger?_groupDocument
          (mapM_map_eq_some fun child mem => read child mem (inner child mem))

/-- A trigger is read from a sound document. -/
theorem soundTrigger?_eq {json : Json} {t : Trigger} (usable : json.Usable)
    (read : ∀ {depth}, json.nesting ≤ depth → json.toTrigger? depth = some t) (depth : Nat) :
    json.soundTrigger? depth = if json.nesting ≤ depth then some t else none := by
  rw [soundTrigger?, guard_isSound usable]
  split
  · exact read ‹_›
  · rfl

end Json

end ForumModeration
