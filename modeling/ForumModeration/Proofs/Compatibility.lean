import ForumModeration.Blob
import ForumModeration.Editor
import ForumModeration.Json.Decoding

/-!
# `ForumModeration.Proofs.Compatibility`: no way around the check of the target

A rule is made from a draft, from two texts, from a blob or from a JSON text, or it is a rule
that was given another target. A rule may also be opened again, changed and built once more.
`compatible_of_run` says of all sequences of these operations that a rule comes out of them
only with data that pass the check.

What is at hand between two operations is held as plain data (`Held`), of a rule too. The
type of rules has the outcome of the check in it, so a statement about its values would
repeat the type; here the check has to be found in what the operations do. `Held.Sound` is
what one operation preserves (`sound_perform`), and a run preserves it by induction.

* `Draft.exists_build_iff`: a draft can be built exactly if its data are compatible, so the
  operations do not get by on refusing everything.
-/

set_option autoImplicit false

namespace ForumModeration

namespace Draft

/-- The trigger tests only fields that the target has. -/
def Compatible (draft : Draft) : Prop :=
  ∀ c ∈ draft.trigger.conditions, draft.target.allows c.field = true

/-- What is built from a draft has the data of the draft. -/
theorem toDraft_of_build {draft : Draft} {rule : ReviewRule}
    (h : draft.build = .ok rule) : rule.toDraft = draft := by
  unfold build at h
  split at h
  · cases h
    rfl
  · cases h

/-- A draft can be built exactly if its data are compatible. -/
theorem exists_build_iff {draft : Draft} :
    (∃ rule, draft.build = .ok rule) ↔ draft.Compatible := by
  constructor
  · rintro ⟨rule, built⟩
    -- The walk over the trigger that was made has met every condition.
    refine (Trigger.check_eq_ok_iff draft.target draft.trigger).mp ?_
    unfold build at built
    split at built
    · assumption
    · cases built
  · intro compatible
    exact ⟨⟨draft, compatible⟩, ReviewRule.build_toDraft ⟨draft, compatible⟩⟩

end Draft

/-- A change of one item of a draft. The name and the trigger of a draft stay. -/
inductive Change where
  | id (n : Int64)
  | fid (n : Int64)
  | forumRuleId (n : Int64)
  | target (target : Target)
  | enabled (enabled : Bool)
  | priority (priority : Int32)
  | action (action : Action)
  | actions (actions : List Action)

/-- A draft after a change. Actions are added to those that are there. -/
def Change.apply (draft : Draft) : Change → Draft
  | .id n => { draft with id := n }
  | .fid n => { draft with fid := n }
  | .forumRuleId n => { draft with forumRuleId := some n }
  | .target t => { draft with target := t }
  | .enabled b => { draft with enabled := b }
  | .priority n => { draft with priority := n }
  | .action a => { draft with actions := draft.actions ++ [a] }
  | .actions as => { draft with actions := draft.actions ++ as }

/-- What is at hand: nothing yet, the data of a draft or the data of a rule. -/
inductive Held where
  | nothing
  | draft (data : Draft)
  | rule (data : Draft)

/-- What can be done with drafts and rules. -/
inductive Operation where
  | new (name : String) (trigger : Trigger)
  | change (change : Change)
  | build
  | withTarget (target : Target)
  | reopen
  | ofBlob (blob : List UInt8)
  | ofJson (text : String)
  | review (editor : Editor) (clock : Clock) (name trigger actions : String) (target : Target)
      (mode : Mode)

namespace Held

variable {held : Held} {ε : Type}

/-- The data of a rule that was made, or what there was if none was made. -/
def orRule (held : Held) : Except ε ReviewRule → Held
  | .ok made => rule made.toDraft
  | .error _ => held

/-- What is at hand after an operation. An operation that fails, or that what is at hand does
not have, changes nothing. -/
def perform (held : Held) : Operation → Held
  | .new name trigger => draft { name, trigger }
  | .change change =>
    match held with
    | draft data => draft (change.apply data)
    | _ => held
  | .build =>
    match held with
    | draft data => held.orRule data.build
    | _ => held
  | .withTarget target =>
    match held with
    | rule data => held.orRule { data with target }.build
    | _ => held
  | .reopen =>
    match held with
    | rule data => draft data
    | _ => held
  | .ofBlob blob => held.orRule (ReviewRule.ofBlob blob)
  | .ofJson text => held.orRule (ReviewRule.ofJson text)
  | .review editor clock name trigger actions target mode =>
    held.orRule ((editor.reviewRule name trigger actions target mode).run clock).1

/-- What is at hand after some operations, one after the other. -/
def run (operations : List Operation) : Held :=
  operations.foldl perform nothing

/-- The data of a rule are compatible. Of a draft nothing is asked. -/
def Sound : Held → Prop
  | rule data => data.Compatible
  | _ => True

/-- A rule that is made is built from its own data, so these pass the check. -/
theorem sound_orRule (h : held.Sound) (made : Except ε ReviewRule) :
    (held.orRule made).Sound := by
  cases made with
  | ok made => exact Draft.exists_build_iff.mp ⟨made, made.build_toDraft⟩
  | error _ => exact h

/-- No operation leads to the data of a rule that are not compatible. -/
theorem sound_perform (h : held.Sound) (operation : Operation) :
    (held.perform operation).Sound := by
  cases operation with
  | new name trigger => trivial
  | change change =>
    cases held with
    | nothing => exact h
    | draft data => trivial
    | rule data => exact h
  | build =>
    cases held with
    | nothing => exact h
    | draft data => exact sound_orRule h data.build
    | rule data => exact h
  | withTarget target =>
    cases held with
    | nothing => exact h
    | draft data => exact h
    | rule data => exact sound_orRule h { data with target }.build
  | reopen =>
    cases held with
    | nothing => exact h
    | draft data => exact h
    | rule data => trivial
  | ofBlob blob => exact sound_orRule h (ReviewRule.ofBlob blob)
  | ofJson text => exact sound_orRule h (ReviewRule.ofJson text)
  | review editor clock name trigger actions target mode => exact sound_orRule h _

/-- No sequence of operations does. -/
theorem sound_foldl (operations : List Operation) (h : held.Sound) :
    (operations.foldl perform held).Sound := by
  induction operations generalizing held with
  | nil => exact h
  | cons operation operations ih => exact ih (sound_perform h operation)

/-- Whatever is done to get to a rule, from blobs and texts of any contents and with editors
and clocks of any kind, every field that the rule's trigger tests is one that the rule's
target has. So the rule, opened again, builds the same rule, and the walk over its trigger
finds nothing. -/
theorem compatible_of_run (operations : List Operation) (data : Draft)
    (reached : run operations = rule data) :
    (∀ c ∈ data.trigger.conditions, data.target.allows c.field = true) ∧
      (∃ made, data.build = .ok made ∧ made.toDraft = data) ∧
      data.trigger.check data.target = .ok () := by
  have sound : (run operations).Sound := sound_foldl operations trivial
  rw [reached] at sound
  obtain ⟨made, built⟩ := Draft.exists_build_iff.mpr sound
  exact ⟨sound, ⟨made, built, Draft.toDraft_of_build built⟩,
    (Trigger.check_eq_ok_iff data.target data.trigger).mpr sound⟩

/-- A rule on the floor of a post that is built, given a target that it must not have and one
that it may have, opened, changed and built again. -/
theorem compatible_of_run_reopened :
    let trigger : Trigger := .condition ⟨.floor, .gt, .int 1⟩
    let operations : List Operation := [.new "floors" trigger, .change (.target .post), .build,
      .withTarget .comment, .withTarget .all, .reopen, .change (.priority 3), .build]
    let data : Draft := { name := "floors", trigger, priority := 3 }
    run operations = rule data ∧ trigger.check .all = .ok () ∧ trigger.check .comment ≠ .ok () := by
  intro trigger operations data
  have reached : run operations = rule data := rfl
  exact ⟨reached, (compatible_of_run operations data reached).2.2, nofun⟩

end Held

end ForumModeration
