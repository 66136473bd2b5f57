import ForumModeration.Action
import ForumModeration.Trigger

/-!
# `ForumModeration.ReviewRule`: rules as they are kept

A review rule is a trigger and actions with the data under which a forum keeps
them. It is made from a draft, whose trigger is checked against the target when
the rule is built. The type holds the outcome of that check, so there is no
review rule that tests a field its target does not have.

* `build_toDraft`: a rule's own draft builds the rule again.
-/

set_option autoImplicit false

namespace ForumModeration

mutual

theorem Trigger.check_eq_ok_iff (target : Target) : (trigger : Trigger) →
    (trigger.check target = .ok () ↔
      ∀ c ∈ trigger.conditions, target.allows c.field = true)
  | .condition c => by
    simp only [Trigger.check, Trigger.conditions, List.mem_singleton, forall_eq]
    split <;> simp_all
  | .group _ children => by
    simp only [Trigger.check, Trigger.conditions, Trigger.checkAll_eq_ok_iff target children]

theorem Trigger.checkAll_eq_ok_iff (target : Target) : (triggers : List Trigger) →
    (Trigger.checkAll target triggers = .ok () ↔
      ∀ c ∈ Trigger.conditionsOf triggers, target.allows c.field = true)
  | [] => by simp [Trigger.checkAll, Trigger.conditionsOf]
  | child :: rest => by
    have first := Trigger.check_eq_ok_iff target child
    have others := Trigger.checkAll_eq_ok_iff target rest
    simp only [Trigger.checkAll, Trigger.conditionsOf, List.mem_append, or_imp, forall_and]
    rw [← first, ← others]
    cases child.check target <;> simp [bind, Except.bind]

end

/-- A rule that is not yet checked. -/
structure Draft where
  name : String
  trigger : Trigger
  id : Int64 := 0
  fid : Int64 := 0
  forumRuleId : Option Int64 := none
  target : Target := .all
  enabled : Bool := true
  priority : Int32 := 0
  actions : List Action := []
deriving DecidableEq, Repr

/-- A rule whose trigger tests only fields that its target has. -/
structure ReviewRule extends Draft where
  compatible : ∀ c ∈ trigger.conditions, target.allows c.field = true

/-- Checks a draft. The error names the first field, depth first, that the target
does not have. -/
def Draft.build (draft : Draft) : Except Incompatible ReviewRule :=
  match h : draft.trigger.check draft.target with
  | .ok () => .ok ⟨draft, (Trigger.check_eq_ok_iff draft.target draft.trigger).1 h⟩
  | .error error => .error error

namespace ReviewRule

/-- The same rule for another target, checked again. -/
def withTarget (rule : ReviewRule) (target : Target) : Except Incompatible ReviewRule :=
  { rule.toDraft with target }.build

/-- A rule as it is shown to a reader. -/
def display (rule : ReviewRule) : String :=
  "ReviewRule(" ++ rule.name ++ ": target " ++ rule.target.tag ++ ", " ++
    Text.decimal rule.trigger.conditions.length ++ " conditions, " ++
    Text.decimal rule.actions.length ++ " actions)"

/-- A rule's own draft builds the rule again. -/
theorem build_toDraft (rule : ReviewRule) : rule.toDraft.build = .ok rule := by
  have passes := (Trigger.check_eq_ok_iff rule.target rule.trigger).2 rule.compatible
  unfold Draft.build
  split
  · rfl
  · rename_i error h
    rw [passes] at h
    cases h

end ReviewRule

end ForumModeration
