import ForumModeration.Json.Encoding
import ForumModeration.Proofs.Json.Reloading

/-!
# `ForumModeration.Proofs.Json.RoundTrip`: rules are read back from JSON

Actions and rules are objects around values and triggers. So what is known of these carries over:
what is written is a document, and what is read from it is the reloaded thing if the document is
not nested too deeply (`action_written`, `rule_written`).

For texts this says what is loaded, for all values, triggers, actions and rules that can be told
from what is written (`Value.ofJson?_toJson` and its siblings). The round trip is the case in
which no string is a timestamp, and every number is read as itself.
-/

set_option autoImplicit false

namespace ForumModeration

namespace Json

open Document

/-! ### Actions -/

section

variable {α : Type} {items : List α} {name : α → String} {document : α → Json}

private theorem named_map {write : α → List Char} :
    named (items.map fun item => (name item, write item)) (items.map document)
      = items.map fun item => (some (name item), document item) := by
  simp [named, List.zipWith_map, List.zipWith_self]

private theorem nestingOfMembers_map {nests : α → Nat}
    (each : ∀ item ∈ items, (document item).nesting = nests item) :
    nestingOfMembers (items.map fun item => (some (name item), document item))
      = (items.map nests).foldr max 0 := by
  rw [nestingOfMembers_eq_foldr, List.map_map]
  exact congrArg (List.foldr max 0) (List.map_congr_left each)

end

/-- Names with values, in which a name may come more than once, are written as an object with
a document of each value. -/
theorem listed_written {pairs : List (String × Value)}
    (portable : ∀ pair ∈ pairs, ∀ s ∈ pair.2.scalars, s.Portable) :
    ∃ document : String × Value → Json,
      Written (writeObject (pairs.map fun pair => (pair.1, writeValue pair.2)))
        (.object (pairs.map fun pair => (some pair.1, document pair))) ∧
      ∀ pair ∈ pairs, (document pair).Usable ∧ (document pair).nesting = pair.2.nesting ∧
        (document pair).toValue? = some pair.2.reloaded := by
  have each : ∀ pair ∈ pairs, ∃ json, Written (writeValue pair.2) json ∧
      json.nesting = pair.2.nesting ∧ json.toValue? = some pair.2.reloaded :=
    fun pair mem => value_written (portable pair mem)
  choose! document written nests read using each
  refine ⟨document, ?_, fun pair mem => ⟨(written pair mem).usable, nests pair mem, read pair mem⟩⟩
  rw [← named_map]
  exact written_object (by
    rw [List.forall₂_map_left_iff, List.forall₂_map_right_iff]
    exact List.forall₂_same.mpr written)

/-- Parameters are written as a document, from which they are read in order. -/
theorem params_written {params : Params} (portable : ∀ s ∈ params.scalars, s.Portable) :
    ∃ json, Written (writeObject (params.entries.map fun entry => (entry.1, writeValue entry.2)))
        json ∧
      json.nesting = params.nesting ∧
      ∀ {depth}, 1 ≤ depth →
        json.toParams? depth = if params.nesting ≤ depth then some params.reloaded else none := by
  obtain ⟨document, written, each⟩ := listed_written fun entry mem s found =>
    portable s (List.mem_flatMap.mpr ⟨entry, mem, found⟩)
  refine ⟨_, written, ?_, ?_⟩
  · rw [nesting, nestingOfMembers_map fun entry mem => (each entry mem).2.1, Params.nesting]
  · intro depth enough
    have members : members? (.object (params.entries.map fun entry =>
        (some entry.1, document entry)))
          = some (params.entries.map fun entry => (entry.1, document entry)) :=
      mapM_map_eq_some fun _ _ => rfl
    have values : (params.entries.map fun entry => (entry.1, document entry)).mapM
        (fun entry => do return (entry.1, ← entry.2.soundValue? (depth - 1)))
          = if ∀ entry ∈ params.entries, entry.2.nesting ≤ depth - 1 then
              some params.reloaded.entries
            else none := by
      refine mapM_map_eq_ite fun entry mem => ?_
      obtain ⟨usable, nests, read⟩ := each entry mem
      dsimp only
      rw [soundValue?_eq usable read, nests]
      split <;> rfl
    have fits : params.nesting ≤ depth ↔
        ∀ entry ∈ params.entries, entry.2.nesting ≤ depth - 1 := by
      rw [← foldr_max_le, Params.nesting]
      omega
    unfold toParams?
    rw [members]
    refine (congrArg (Option.bind · _) values).trans ?_
    by_cases all : params.nesting ≤ depth
    · rw [if_pos all, if_pos (fits.mp all)]
      exact congrArg some params.reloaded.ofList_entries
    · rw [if_neg all, if_neg fun each => all (fits.mpr each)]
      rfl

/-- The document of an action. -/
private def actionDocument (kind : ActionKind) (params : Json) : Json :=
  .object [(some "type", .string (some kind.tag)), (some "params", params)]

private theorem toAction?_actionDocument (kind : ActionKind) (params : Json) (depth : Nat) :
    (actionDocument kind params).toAction? depth
      = (params.toParams? (depth - 1)).bind fun params => some { kind, params } := by
  have known : tagged? ActionKind.ofTag? (.string (some kind.tag)) = some kind :=
    ActionKind.ofTag?_tag kind
  exact congrArg (Option.bind · _) known

/-- An action is written as a document, from which it is read if it is not nested too deeply. -/
theorem action_written {action : Action} (portable : ∀ s ∈ action.params.scalars, s.Portable) :
    ∃ json, Written (writeAction action) json ∧ json.nesting = action.nesting ∧
      ∀ {depth}, 2 ≤ depth →
        json.toAction? depth = if action.nesting ≤ depth then some action.reloaded else none := by
  obtain ⟨params, written, nests, read⟩ := params_written portable
  refine ⟨actionDocument action.kind params, ?_, ?_, ?_⟩
  · exact written_object (.cons (written_string _) (.cons written .nil))
  · simp only [actionDocument, nesting, nestingOfMembers, nests, Action.nesting]
    omega
  · intro depth enough
    have fits : action.nesting ≤ depth ↔ action.params.nesting ≤ depth - 1 := by
      rw [Action.nesting]
      omega
    rw [toAction?_actionDocument, read (by omega)]
    simp only [fits]
    split <;> rfl

/-- Actions are written as a document, from which they are read if none is nested too deeply. -/
theorem actions_written {actions : List Action}
    (portable : ∀ action ∈ actions, ∀ s ∈ action.params.scalars, s.Portable) :
    ∃ json, Written (writeActions actions) json ∧ json.nesting = Action.nestingOf actions ∧
      ∀ {depth}, 3 ≤ depth → json.toActions? depth =
        if Action.nestingOf actions ≤ depth then some (actions.map Action.reloaded) else none := by
  have each : ∀ action ∈ actions, ∃ json, Written (writeAction action) json ∧
      json.nesting = action.nesting ∧ ∀ {depth}, 2 ≤ depth →
        json.toAction? depth = if action.nesting ≤ depth then some action.reloaded else none :=
    fun action mem => action_written (portable action mem)
  choose! document written nests read using each
  refine ⟨.array (actions.map document), written_array (forall₂_written written), ?_, ?_⟩
  · rw [nesting, nestingOf_map nests, Action.nestingOf]
  · intro depth enough
    have fits : Action.nestingOf actions ≤ depth ↔
        ∀ action ∈ actions, action.nesting ≤ depth - 1 := by
      rw [← foldr_max_le, Action.nestingOf]
      omega
    simp only [fits]
    exact mapM_map_eq_ite fun action mem => read action mem (by omega)

/-! ### Rules -/

/-- The document of a rule. -/
private def ruleDocument (rule : ReviewRule) (id fid forumRuleId priority trigger actions : Json) :
    Json :=
  .object [(some "id", id), (some "fid", fid), (some "forum_rule_id", forumRuleId),
    (some "target_type", .string (some rule.target.tag)), (some "name", .string (some rule.name)),
    (some "enabled", .bool rule.enabled), (some "priority", priority), (some "trigger", trigger),
    (some "actions", actions)]

private theorem toDraft?_ruleDocument {rule : ReviewRule} {id fid priority : Numeral}
    {forumRuleId trigger actions : Json} (idRead : id.int64? = some rule.id)
    (fidRead : fid.int64? = some rule.fid)
    (forumRead : orNull? (fun json => json.numeral?.bind Numeral.int64?) forumRuleId
      = some rule.forumRuleId)
    (priorityRead : priority.int32? = some rule.priority) (depth : Nat) :
    (ruleDocument rule (.number id) (.number fid) forumRuleId (.number priority) trigger
        actions).toDraft? depth
      = (trigger.soundTrigger? (depth - 1)).bind fun trigger =>
          (actions.toActions? (depth - 1)).bind fun actions =>
            some { rule.toDraft with trigger, actions } := by
  have target : tagged? Target.ofTag? (.string (some rule.target.tag)) = some rule.target :=
    Target.ofTag?_tag rule.target
  refine (congrArg (Option.bind · _) idRead).trans ?_
  refine (congrArg (Option.bind · _) fidRead).trans ?_
  refine (congrArg (Option.bind · _) forumRead).trans ?_
  refine (congrArg (Option.bind · _) target).trans ?_
  exact congrArg (Option.bind · _) priorityRead

private theorem integer_written (i : Int64) :
    ∃ n, Written (Text.signedDigits i.toInt) (.number n) ∧ n.int64? = some i := by
  obtain ⟨n, reads, whole, inRange⟩ := int64_recovers i
  exact ⟨n, written_number reads inRange, whole⟩

/-- An integer that may be missing is written as a number or as `null`. -/
private theorem forumRuleId_written (id : Option Int64) :
    ∃ json, Written (id.elim "null".toList fun i => Text.signedDigits i.toInt) json ∧
      orNull? (fun json => json.numeral?.bind Numeral.int64?) json = some id := by
  cases id with
  | none => exact ⟨.null, written_null, rfl⟩
  | some i =>
    obtain ⟨n, written, read⟩ := integer_written i
    exact ⟨.number n, written, congrArg (Option.map some) read⟩

/-- A rule is written as a document, from which its draft is read if it is not nested too
deeply. -/
theorem rule_written {rule : ReviewRule} (portable : ∀ s ∈ rule.scalars, s.Portable) :
    ∃ json, Written (writeRule rule) json ∧ json.toDraft? maxDepth =
      if rule.nesting ≤ maxDepth then some rule.reloaded.toDraft else none := by
  obtain ⟨id, idWritten, idRead⟩ := integer_written rule.id
  obtain ⟨fid, fidWritten, fidRead⟩ := integer_written rule.fid
  obtain ⟨forumRuleId, forumWritten, forumRead⟩ := forumRuleId_written rule.forumRuleId
  obtain ⟨priority, priorityReads, priorityRead, inRange⟩ := int32_recovers rule.priority
  obtain ⟨trigger, triggerWritten, triggerNests, triggerRead⟩ := trigger_written (t := rule.trigger)
    fun s found => portable s (List.mem_append_left _ found)
  have portableActions : ∀ action ∈ rule.actions, ∀ s ∈ action.params.scalars, s.Portable :=
    fun action mem s found => portable s
      (List.mem_append_right _ (List.mem_flatMap.mpr ⟨action, mem, found⟩))
  obtain ⟨actions, actionsWritten, -, actionsRead⟩ := actions_written portableActions
  refine ⟨ruleDocument rule (.number id) (.number fid) forumRuleId (.number priority) trigger
    actions, ?_, ?_⟩
  · exact written_object (.cons idWritten (.cons fidWritten (.cons forumWritten
      (.cons (written_string _) (.cons (written_string _) (.cons (written_bool _)
      (.cons (written_number priorityReads inRange) (.cons triggerWritten
      (.cons actionsWritten .nil)))))))))
  · have fits : rule.nesting ≤ maxDepth ↔ rule.trigger.nesting ≤ maxDepth - 1 ∧
        Action.nestingOf rule.actions ≤ maxDepth - 1 := by
      rw [ReviewRule.nesting, maxDepth]
      omega
    rw [toDraft?_ruleDocument idRead fidRead forumRead priorityRead,
      soundTrigger?_eq triggerWritten.usable (fun enough => triggerRead (triggerNests ▸ enough)),
      triggerNests, actionsRead (by decide)]
    simp only [fits]
    by_cases one : rule.trigger.nesting ≤ maxDepth - 1
    · simp only [one, if_true, true_and]
      split <;> rfl
    · simp only [one, if_false, false_and]
      rfl

end Json

/-! ### Texts -/

open Json.Document

/-- What is loaded from the text of a value. -/
theorem Value.ofJson?_toJson {v : Value} (portable : ∀ s ∈ v.scalars, s.Portable) :
    ofJson? v.toJson = if v.nesting ≤ Json.maxDepth then some v.reloaded else none := by
  obtain ⟨json, written, nests, read⟩ := Json.value_written portable
  unfold ofJson? toJson
  rw [(ofText?_of_written written).1, ← nests]
  exact Json.soundValue?_eq written.usable read Json.maxDepth

/-- What is loaded from the text of a trigger. -/
theorem Trigger.ofJson?_toJson {t : Trigger} (portable : ∀ s ∈ t.scalars, s.Portable) :
    ofJson? t.toJson = if t.nesting ≤ Json.maxDepth then some t.reloaded else none := by
  obtain ⟨json, written, nests, read⟩ := Json.trigger_written portable
  unfold ofJson? toJson
  rw [(ofText?_of_written written).1, ← nests]
  exact Json.soundTrigger?_eq written.usable (fun enough => read (nests ▸ enough)) Json.maxDepth

/-- What is loaded from the text of actions. -/
theorem Action.listOfJson?_listToJson {actions : List Action}
    (portable : ∀ action ∈ actions, ∀ s ∈ action.params.scalars, s.Portable) :
    listOfJson? (listToJson actions) =
      if nestingOf actions ≤ Json.maxDepth then some (actions.map reloaded) else none := by
  obtain ⟨json, written, -, read⟩ := Json.actions_written portable
  unfold listOfJson? listToJson
  rw [(ofText?_of_written written).1]
  exact read (by decide)

/-- What is loaded from the text of a rule. -/
theorem ReviewRule.ofJson_toJson {rule : ReviewRule} (portable : ∀ s ∈ rule.scalars, s.Portable) :
    ofJson rule.toJson =
      if rule.nesting ≤ Json.maxDepth then .ok rule.reloaded else .error .malformed := by
  obtain ⟨json, written, read⟩ := Json.rule_written portable
  unfold ofJson toJson
  rw [String.toList_ofList, (ofText?_of_written written).2]
  dsimp only [Option.bind_eq_bind, Option.bind_some]
  rw [read]
  by_cases fits : rule.nesting ≤ Json.maxDepth
  · rw [if_pos fits, if_pos fits]
    dsimp only [Option.bind_some, Option.pure_def]
    rw [build_toDraft]
    rfl
  · rw [if_neg fits, if_neg fits]
    rfl

/-! ### The round trip -/

/-- A scalar comes back from JSON as it was: numbers are finite and their digits are read as
themselves, instants are shown in full and strings are no timestamps. -/
def Value.KeptByJson : Value → Prop
  | float x => x.isFinite = true ∧ x.reread = x
  | instant time => time.Portable
  | string text => Timestamp.read? text.toList = none
  | _ => True

namespace Json

section

variable {scalars : List Value}

theorem portable_of_kept (h : ∀ s ∈ scalars, s.KeptByJson) :
    ∀ s ∈ scalars, s.Portable := by
  intro s mem
  have own := h s mem
  cases s with
  | float x => exact own.1
  | instant time => exact own
  | _ => exact trivial

theorem stays_of_kept (h : ∀ s ∈ scalars, s.KeptByJson) : ∀ s ∈ scalars, s.Stays := by
  intro s mem
  have own := h s mem
  cases s with
  | float x => exact own.2
  | string text => exact own
  | _ => exact trivial

end

/-- Values, triggers, actions and rules are read back from the JSON text they are written as,
with all their parts as they were and in the same order. For this no more than 127 arrays and
objects may be in each other, and every scalar has to be such that it comes back. -/
theorem ofJson_toJson_eq_self :
    (∀ v : Value, (∀ s ∈ v.scalars, s.KeptByJson) → v.nesting ≤ 127 →
      Value.ofJson? v.toJson = some v) ∧
    (∀ t : Trigger, (∀ s ∈ t.scalars, s.KeptByJson) → t.nesting ≤ 127 →
      Trigger.ofJson? t.toJson = some t) ∧
    (∀ actions : List Action, (∀ action ∈ actions, ∀ s ∈ action.params.scalars, s.KeptByJson) →
      Action.nestingOf actions ≤ 127 →
        Action.listOfJson? (Action.listToJson actions) = some actions) ∧
    ∀ rule : ReviewRule, (∀ s ∈ rule.scalars, s.KeptByJson) → rule.nesting ≤ 127 →
      ReviewRule.ofJson rule.toJson = .ok rule := by
  refine ⟨?value, ?trigger, ?actions, ?rule⟩
  case value =>
    intro v kept (fits : v.nesting ≤ maxDepth)
    rw [Value.ofJson?_toJson (portable_of_kept kept), if_pos fits,
      Value.reloaded_eq_self_iff.mpr (stays_of_kept kept)]
  case trigger =>
    intro t kept (fits : t.nesting ≤ maxDepth)
    rw [Trigger.ofJson?_toJson (portable_of_kept kept), if_pos fits,
      Trigger.reloaded_eq_self_iff.mpr (stays_of_kept kept)]
  case actions =>
    intro actions kept (fits : Action.nestingOf actions ≤ maxDepth)
    have same : actions.map Action.reloaded = actions := map_eq_self_iff.mpr fun action mem =>
      Action.reloaded_eq_self_iff.mpr (stays_of_kept (kept action mem))
    rw [Action.listOfJson?_listToJson
      (fun action mem => portable_of_kept (kept action mem)), if_pos fits, same]
  case rule =>
    intro rule kept (fits : rule.nesting ≤ maxDepth)
    rw [ReviewRule.ofJson_toJson (portable_of_kept kept), if_pos fits,
      ReviewRule.reloaded_eq_self_iff.mpr (stays_of_kept kept)]

/-- A list that holds a whole floating-point number, a text and an instant: in a trigger, as the
parameter of an action, and in a rule with both. -/
theorem ofJson_toJson_eq_self_list :
    let list : Value := .list [.float (.nearest false ⟨2, 0⟩), .string "2023-01-01",
      .instant ⟨1672531200, 500000000, ⟨-34200, by decide⟩, by decide⟩]
    let trigger : Trigger := .group .not [.condition ⟨.title, .among, list⟩]
    let actions : List Action := [⟨.ban, .ofList [("reason", list), ("days", .int 3)]⟩]
    let rule : ReviewRule := ⟨{ name := "\"spam\"\n", trigger, actions }, by decide⟩
    Value.ofJson? list.toJson = some list ∧ Trigger.ofJson? trigger.toJson = some trigger ∧
      Action.listOfJson? (Action.listToJson actions) = some actions ∧
      ReviewRule.ofJson rule.toJson = .ok rule := by
  intro list trigger actions rule
  have own : ∀ s ∈ list.scalars, s.KeptByJson :=
    List.forall_mem_cons.mpr ⟨⟨by decide +kernel, by decide +kernel⟩,
      List.forall_mem_cons.mpr ⟨(by decide +kernel : Timestamp.read? "2023-01-01".toList = none),
        List.forall_mem_singleton.mpr ⟨by decide, by decide +kernel, by decide⟩⟩⟩
  have params : ∀ s ∈ list.scalars ++ [.int 3], s.KeptByJson := fun s mem =>
    (List.mem_append.mp mem).elim (own s) fun mem => List.mem_singleton.mp mem ▸ trivial
  have both : ∀ s ∈ list.scalars ++ (list.scalars ++ [.int 3]), s.KeptByJson := fun s mem =>
    (List.mem_append.mp mem).elim (own s) (params s)
  obtain ⟨ofValue, ofTrigger, ofActions, ofRule⟩ := ofJson_toJson_eq_self
  exact ⟨ofValue list own (by decide +kernel), ofTrigger trigger own (by decide +kernel),
    ofActions actions (List.forall_mem_singleton.mpr params) (by decide +kernel),
    ofRule rule both (by decide +kernel)⟩
end Json

end ForumModeration
