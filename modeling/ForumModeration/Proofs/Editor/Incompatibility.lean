import ForumModeration.Json.Encoding
import ForumModeration.Proofs.Editor.Calls
import ForumModeration.Proofs.Editor.Storage

/-!
# `ForumModeration.Proofs.Editor.Incompatibility`: the field that an error names

The check of a trigger against a target walks the tree and stops early, and the list of
conditions is collected by a walk of its own. Both meet the conditions in the same order, so
the check is one of the list (`Trigger.check_eq_firstTrouble`), and its error names the field
of the first condition in the list that the target does not allow (`Trigger.FirstOffender`).

A rule can be built, given another target, made from texts or loaded in either form.
Each of these comes to the check of one draft in the end, some after other checks. Where those
pass, `incompatible_names_firstOffender` says that what is reported is the verdict on the
trigger. `Json.Gives` and `Blob.Record.Gives` say which texts and records pass them.
-/

set_option autoImplicit false

namespace ForumModeration

namespace Trigger

variable {trigger : Trigger} {target : Target}

/-- The first of some conditions on a field that the target does not have. -/
def firstTrouble (target : Target) (conditions : List Condition) : Except Incompatible Unit :=
  match conditions.find? (!target.allows ·.field) with
  | some c => .error ⟨c.field, target⟩
  | none => .ok ()

theorem firstTrouble_append (target : Target) (before after : List Condition) :
    firstTrouble target (before ++ after)
      = (do firstTrouble target before; firstTrouble target after) := by
  unfold firstTrouble
  rw [List.find?_append]
  cases before.find? (!target.allows ·.field) <;> rfl

/-- The walk over a tree stops where one over the list of its conditions does. -/
theorem check_eq_firstTrouble (target : Target) (trigger : Trigger) :
    trigger.check target = firstTrouble target trigger.conditions := by
  induction trigger using Trigger.induction with
  | condition c =>
    rw [check, conditions, firstTrouble, List.find?_singleton]
    cases target.allows c.field <;> rfl
  | group connective children ih =>
    rw [check, conditions_group]
    induction children with
    | nil => rfl
    | cons child children ih' =>
      rw [checkAll, ih child (by simp),
        ih' fun child mem => ih child (List.mem_cons_of_mem _ mem), List.flatMap_cons,
        firstTrouble_append]

/-- The condition is on a field that the target does not have, and the first such one in the
list of conditions. -/
def FirstOffender (trigger : Trigger) (target : Target) (c : Condition) : Prop :=
  ∃ before after, trigger.conditions = before ++ c :: after ∧
    (∀ b ∈ before, target.allows b.field = true) ∧ target.allows c.field = false

theorem firstOffender_iff {c : Condition} : trigger.FirstOffender target c ↔
    trigger.conditions.find? (!target.allows ·.field) = some c := by
  rw [List.find?_eq_some_iff_append, FirstOffender]
  constructor
  · rintro ⟨before, after, split, fit, fails⟩
    exact ⟨by simpa using fails, before, after, split, by simpa using fit⟩
  · rintro ⟨fails, before, after, split, fit⟩
    exact ⟨before, after, split, by simpa using fit, by simpa using fails⟩

/-- An outcome is an error exactly if the trigger tests a field that the target does not have,
and then the error for the first such field. `named` says how errors appear in the outcome. -/
def RefusedFor {ε α : Type} (trigger : Trigger) (target : Target) (named : Incompatible → ε)
    (outcome : Except ε α) : Prop :=
  ∀ error, outcome = .error error ↔
    ∃ c, trigger.FirstOffender target c ∧ error = named ⟨c.field, target⟩

section

variable {ε ε' α β : Type} {named : Incompatible → ε}

/-- The check is refused for the first offender. -/
theorem refusedFor_check (trigger : Trigger) (target : Target) :
    trigger.RefusedFor target id (trigger.check target) := by
  intro error
  simp only [firstOffender_iff]
  rw [check_eq_firstTrouble, firstTrouble]
  cases trigger.conditions.find? (!target.allows ·.field) with
  | none => exact ⟨nofun, nofun⟩
  | some c =>
    rw [Except.error.injEq]
    constructor
    · rintro rfl
      exact ⟨c, rfl, rfl⟩
    · rintro ⟨other, same, rfl⟩
      cases same
      rfl

/-- Only the errors of an outcome matter. -/
theorem RefusedFor.congr {outcome : Except ε α} {outcome' : Except ε β}
    (h : trigger.RefusedFor target named outcome)
    (same : ∀ error, outcome' = .error error ↔ outcome = .error error) :
    trigger.RefusedFor target named outcome' :=
  fun error => (same error).trans (h error)

/-- An error may be passed on as one of another kind. -/
theorem RefusedFor.mapError {outcome : Except ε α} (h : trigger.RefusedFor target named outcome)
    (f : ε → ε') : trigger.RefusedFor target (fun error => f (named error))
      (outcome.mapError f) := by
  intro error
  constructor
  · intro failed
    cases outcome with
    | ok made => cases failed
    | error own =>
      cases failed
      obtain ⟨c, offends, rfl⟩ := (h own).mp rfl
      exact ⟨c, offends, rfl⟩
  · rintro ⟨c, offends, rfl⟩
    rw [(h _).mpr ⟨c, offends, rfl⟩]
    rfl

end

/-- A draft is refused for the first offender in its trigger. -/
theorem refusedFor_build (draft : Draft) :
    draft.trigger.RefusedFor draft.target id draft.build := by
  refine (refusedFor_check draft.trigger draft.target).congr fun error => ?_
  unfold Draft.build
  split
  · rename_i passes
    refine ⟨nofun, fun fails => ?_⟩
    rw [passes] at fails
    cases fails
  · rename_i own fails
    rw [fails]
    exact ⟨fun same => congrArg _ (Except.error.inj same),
      fun same => congrArg _ (Except.error.inj same)⟩

end Trigger

/-! ### Loading -/

/-- A JSON text has the data of a rule and nothing else. Whether the target has the fields
that the trigger tests is left open. -/
def Json.Gives (text : String) (draft : Draft) : Prop :=
  ∃ json, Document.ofText? text = some json ∧ json.toDraft? maxDepth = some draft

/-- What is loaded from the data of a rule is what can be built from them. -/
theorem Json.Gives.ofJson_eq {text : String} {draft : Draft} (gives : Gives text draft) :
    ReviewRule.ofJson text = draft.build.mapError .incompatible := by
  obtain ⟨json, whole, data⟩ := gives
  obtain ⟨⟨own, rest⟩, read, rest_⟩ := Option.bind_eq_some_iff.mp whole
  obtain ⟨_, blank, same⟩ := Option.bind_eq_some_iff.mp rest_
  obtain rfl : own = json := Option.some.inj same
  have nothing : (Document.skipBlanks rest).isEmpty = true := by
    unfold guard at blank
    split at blank
    · assumption
    · cases blank
  unfold ReviewRule.ofJson
  rw [read]
  dsimp only [Option.bind_eq_bind, Option.bind_some]
  rw [data]
  dsimp only [Option.bind_some, Option.pure_def]
  rw [nothing]
  cases draft.build <;> rfl

namespace Blob

/-- A record passes all checks but the last. Whether the target has the fields that the
trigger tests is left open. -/
structure Record.Gives (record : Record) (trigger : Trigger) (target : Target) : Prop where
  knownTarget : Target.ofTag? record.target = some target
  readTrigger : record.trigger.toTrigger = .ok trigger
  readActions : ∃ actions, record.actions.mapM Call.toAction = .ok actions ∧
    record.actionCount = actions.length
  conditionCount : record.conditionCount = trigger.conditions.length

/-- The last check of a record is that of its trigger. -/
theorem Record.Gives.refusedFor_toRule {record : Record} {trigger : Trigger} {target : Target}
    (gives : record.Gives trigger target) :
    trigger.RefusedFor target .incompatible record.toRule := by
  obtain ⟨knownTarget, readTrigger, ⟨actions, readActions, actionCount⟩, conditionCount⟩ := gives
  let draft : Draft :=
    { name := record.name, trigger, id := record.id, fid := record.fid
      forumRuleId := record.forumRuleId, target, enabled := record.enabled
      priority := record.priority, actions }
  have last : record.toRule = draft.build.mapError .incompatible := by
    unfold toRule known
    rw [knownTarget, readTrigger, readActions]
    show (if record.conditionCount ≠ trigger.conditions.length then Except.error _
      else if record.actionCount ≠ actions.length then Except.error _
      else draft.build.mapError Violation.incompatible) = _
    rw [if_neg (not_not_intro conditionCount), if_neg (not_not_intro actionCount)]
  rw [last]
  exact (Trigger.refusedFor_build draft).mapError Violation.incompatible

/-- A blob is refused for what its record is refused for. -/
theorem refusedFor_ofBlob {blob : List UInt8} {record : Record} {trigger : Trigger}
    {target : Target} (found : Blob.record blob = .ok record)
    (gives : record.Gives trigger target) :
    trigger.RefusedFor target (fun error => .invalid (.incompatible error))
      (ReviewRule.ofBlob blob) := by
  have opened : ReviewRule.ofBlob blob = record.toRule.mapError .invalid := by
    unfold ReviewRule.ofBlob
    rw [found]
    rfl
  rw [opened]
  exact gives.refusedFor_toRule.mapError BlobError.invalid

end Blob

/-! ### Every way to a rule -/

/-- The check of a trigger fails exactly if the target does not have the field of some
condition in the list of conditions, and the error names the field of the first such
condition. It is this error, and in this case only, with which it is refused to

- build a draft with the trigger for the target,
- give the target to a rule with the trigger,
- make a rule from texts, if both can be read and the trigger is what the first is read as,
- load a rule from a JSON text that has the data of one with the trigger and the target, and
- load a rule from a blob whose record passes all other checks and has both; what is said of
  the blob is then that it is not valid, and the message of the error. -/
theorem incompatible_names_firstOffender (trigger : Trigger) (target : Target) :
    ((∃ error, trigger.check target = .error error) ↔
      ∃ c ∈ trigger.conditions, target.allows c.field = false) ∧
    trigger.RefusedFor target id (trigger.check target) ∧
    (∀ draft : Draft, draft.trigger = trigger → draft.target = target →
      trigger.RefusedFor target id draft.build) ∧
    (∀ rule : ReviewRule, rule.trigger = trigger →
      trigger.RefusedFor target id (rule.withTarget target)) ∧
    (∀ (editor : Editor) (clock : Clock) (mode : Mode) (name text calls : String)
      (actions : List Action),
      ((editor.parseRule text mode).run clock).1 = .ok trigger →
      ((editor.parseActions calls mode).run clock.read.2).1 = .ok actions →
        trigger.RefusedFor target .incompatible
          ((editor.reviewRule name text calls target mode).run clock).1) ∧
    (∀ (text : String) (draft : Draft), Json.Gives text draft → draft.trigger = trigger →
      draft.target = target → trigger.RefusedFor target .incompatible (ReviewRule.ofJson text)) ∧
    (∀ (blob : List UInt8) (record : Blob.Record), Blob.record blob = .ok record →
      record.Gives trigger target →
        trigger.RefusedFor target (fun error => .invalid (.incompatible error))
          (ReviewRule.ofBlob blob)) ∧
    ∀ error : Incompatible, (Blob.BlobError.invalid (.incompatible error)).message
      = "validation failed: " ++ error.message := by
  refine ⟨?_, Trigger.refusedFor_check trigger target, ?build, ?withTarget, ?review, ?json, ?blob,
    fun _ => rfl⟩
  · have passes := Trigger.check_eq_ok_iff target trigger
    cases outcome : trigger.check target with
    | ok _ =>
      refine ⟨fun ⟨_, failed⟩ => (nomatch failed), fun ⟨c, listed, missing⟩ => ?_⟩
      rw [passes.mp outcome c listed] at missing
      cases missing
    | error error =>
      refine ⟨fun _ => ?_, fun _ => ⟨error, rfl⟩⟩
      obtain ⟨c, ⟨before, after, split, -, missing⟩, -⟩ :=
        (Trigger.refusedFor_check trigger target error).mp outcome
      exact ⟨c, by simp [split], missing⟩
  case build =>
    rintro draft rfl rfl
    exact Trigger.refusedFor_build draft
  case withTarget =>
    rintro rule rfl
    exact Trigger.refusedFor_build { rule.toDraft with target }
  case review =>
    intro editor clock mode name text calls actions readTrigger readActions
    have first : editor.parseRuleAt (clock.readings 0) text mode = .ok trigger := readTrigger
    have second : editor.parseActionsAt (clock.readings 1) calls mode = .ok actions := readActions
    rw [Editor.reviewRule_run, first]
    dsimp only
    rw [second]
    exact (Trigger.refusedFor_build { name, trigger, target, actions }).mapError
      ReviewError.incompatible
  case json =>
    rintro text draft gives rfl rfl
    rw [gives.ofJson_eq]
    exact (Trigger.refusedFor_build draft).mapError Json.LoadError.incompatible
  case blob =>
    exact fun blob record found gives => Blob.refusedFor_ofBlob found gives

/-- A comment has neither a floor nor views. The floor is tested first, so it is named by the
check and on every other way to a rule. -/
theorem incompatible_names_firstOffender_floor :
    let floor : Condition := ⟨.floor, .gt, .int 3⟩
    let trigger : Trigger := .group .and [.condition ⟨.text, .contains, .string "a"⟩,
      .group .not [.group .or [.condition floor, .condition ⟨.viewNum, .gt, .int 10⟩]]]
    let named : Incompatible := ⟨.floor, .comment⟩
    let draft : Draft := { name := "", trigger, target := .comment }
    let text := String.ofList (Json.writeObject [("name", Json.writeString ""),
      ("target_type", Json.writeString "comment"), ("trigger", Json.writeTrigger trigger)])
    let record : Blob.Record :=
      { conditionCount := 3, actionCount := 0, sourceDigest := none, id := 0, fid := 0,
        forumRuleId := none, target := "comment", name := "", enabled := true, priority := 0,
        trigger := .ofTrigger trigger, actions := [] }
    trigger.check .comment = .error named ∧ draft.build = .error named ∧
      (∀ h, (⟨{ draft with target := .all }, h⟩ : ReviewRule).withTarget .comment = .error named) ∧
      ((({} : Editor).reviewRule "" "text contains 'a' and not (floor > 3 or view_num > 10)"
        "delete()" .comment .dsl).run (.fixed ⟨0, 0, .utc, by decide⟩)).1
          = .error (.incompatible named) ∧
      ReviewRule.ofJson text = .error (.incompatible named) ∧
      ReviewRule.ofBlob (Blob.wrap record.write) = .error (.invalid (.incompatible named)) := by
  intro floor trigger named draft text record
  have first : trigger.FirstOffender .comment floor :=
    ⟨[⟨.text, .contains, .string "a"⟩], [⟨.viewNum, .gt, .int 10⟩], rfl, by decide, by decide⟩
  obtain ⟨-, check, build, withTarget, review, json, blob, -⟩ :=
    incompatible_names_firstOffender trigger .comment
  have gives : Json.Gives text draft := by
    refine Option.bind_eq_some_iff.mp ?_
    -- The characters are read as they are, not out of the string.
    unfold Json.Document.ofText?
    rw [String.toList_ofList]
    decide +kernel
  have small : record.write.length < 0x100000000 :=
    Nat.lt_trans (by decide +kernel : record.write.length < 1000) (by decide)
  have found : Blob.record (Blob.wrap record.write) = .ok record := by
    have unwrapped := Blob.unwrap_wrap small []
    rw [List.append_nil] at unwrapped
    exact Blob.record_eq_ok.mpr ⟨record.write, unwrapped,
      Blob.read?_write small (by decide) (by decide) nofun⟩
  have passes : record.Gives trigger .comment :=
    ⟨rfl, Blob.toTrigger_eq_ok_iff.mpr ⟨rfl, by decide, by decide⟩, ⟨[], rfl, rfl⟩, rfl⟩
  exact ⟨(check _).mpr ⟨floor, first, rfl⟩, (build draft rfl rfl _).mpr ⟨floor, first, rfl⟩,
    fun h => (withTarget ⟨{ draft with target := .all }, h⟩ rfl _).mpr ⟨floor, first, rfl⟩,
    (review {} _ .dsl "" _ _ [⟨.delete, ∅⟩] (Editor.parseRule_eq_ok_iff.mpr (by decide +kernel))
      (Editor.parseActions_eq_ok_iff.mpr (by decide +kernel)) _).mpr ⟨floor, first, rfl⟩,
    (json text draft gives rfl rfl _).mpr ⟨floor, first, rfl⟩,
    (blob _ record found passes _).mpr ⟨floor, first, rfl⟩⟩

end ForumModeration
