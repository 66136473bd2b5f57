import ForumModeration.Blob.Payload
import ForumModeration.Proofs.Actions
import ForumModeration.Proofs.Blob.Payload

/-!
# `ForumModeration.Proofs.Blob.Record`: a rule's record is checked

The record of a rule has everything that the rule has. It passes the check exactly if
the rule's trigger is well formed (`Trigger.WellFormed`), and then the rule comes back
(`toRule_ofRule`). Values, actions and all else pass in any case: the tags of a rule are
known, its instants are points of time, and the names of parameters are distinct.

For triggers the two directions are one statement, `toTrigger_eq_ok_iff`, which goes by
induction over the trigger.
-/

set_option autoImplicit false

namespace ForumModeration

/-- The groups of a trigger have as many children as their connectives take, and
membership is tested in lists. -/
structure Trigger.WellFormed (t : Trigger) : Prop where
  arities : ∀ g ∈ t.groups, g.1.acceptsArity g.2 = true
  lists : ∀ c ∈ t.conditions, c.operator = .among → c.value.isList = true

/-- A group is well formed if it has as many children as its connective takes and all of
them are. -/
theorem Trigger.wellFormed_group {connective : Connective} {children : List Trigger} :
    (Trigger.group connective children).WellFormed ↔
      connective.acceptsArity children.length = true ∧ ∀ child ∈ children, child.WellFormed := by
  constructor
  · rintro ⟨arities, lists⟩
    exact ⟨arities (connective, children.length) (by simp), fun child mem =>
      ⟨fun g found => arities g (mem_groups_of_child mem found),
        fun c found => lists c (mem_conditions_of_child mem found)⟩⟩
  · rintro ⟨arity, each⟩
    constructor
    · rw [groups_group, List.forall_mem_cons]
      refine ⟨arity, ?_⟩
      intro g mem
      obtain ⟨child, listed, found⟩ := List.mem_flatMap.mp mem
      exact (each child listed).arities g found
    · rw [conditions_group]
      intro c mem
      obtain ⟨child, listed, found⟩ := List.mem_flatMap.mp mem
      exact (each child listed).lists c found

namespace Blob

/-! ### Values -/

/-- An instant is stored as numbers that fit. -/
theorem instant_of_instant (time : Instant) :
    instant (.ofInt time.seconds) (.ofNat time.nanos) (.ofInt time.offset.seconds) = .ok time := by
  obtain ⟨least, most, nanos⟩ := time.pointOfTime
  have seconds : (Int64.ofInt time.seconds).toInt = time.seconds :=
    Int64.toInt_ofInt_of_le (by omega) (by omega)
  have nanos : (UInt32.ofNat time.nanos).toNat = time.nanos :=
    UInt32.toNat_ofNat_of_lt' (by show time.nanos < 4294967296; omega)
  have offset : (Int32.ofInt time.offset.seconds).toInt = time.offset.seconds := by
    have day := time.offset.lt_day
    exact Int32.toInt_ofInt_of_le (by omega) (by omega)
  -- All three numbers come back as they were, so the instant passes the check.
  unfold instant
  rw [seconds, nanos, offset, Offset.ofSeconds?_seconds]
  simp only
  rw [Instant.ofUnix?_seconds]

theorem ofValues_eq_map (items : List Value) :
    Datum.ofValues items = items.map Datum.ofValue :=
  eq_map_of_cons rfl fun _ _ => rfl

/-- Every value is stored as a datum of it. -/
theorem toValue_ofValue (v : Value) : (Datum.ofValue v).toValue = .ok v := by
  induction v using Value.induction with
  | scalar v noList =>
    cases v with
    | instant time =>
      rw [Datum.ofValue, Datum.toValue, instant_of_instant]
      rfl
    | list items => cases noList
    | _ => rfl
  | list items ih =>
    have all : Datum.toValues (items.map Datum.ofValue) = .ok items := by
      induction items with
      | nil => rfl
      | cons item items ih' =>
        rw [List.map_cons, Datum.toValues, ih item (by simp),
          ih' fun item mem => ih item (List.mem_cons_of_mem _ mem)]
        rfl
    rw [Datum.ofValue, ofValues_eq_map, Datum.toValue, all]
    rfl

/-! ### Triggers -/

theorem ofTriggers_eq_map (triggers : List Trigger) :
    Tree.ofTriggers triggers = triggers.map Tree.ofTrigger :=
  eq_map_of_cons rfl fun _ _ => rfl

/-- A condition passes the check unless it tests membership in something else than a
list. -/
theorem condition_eq_ok_iff {c c' : Condition} :
    condition c.field.tag c.operator.tag (.ofValue c.value) = .ok c' ↔
      c' = c ∧ (c.operator = .among → c.value.isList = true) := by
  unfold condition known
  rw [Field.ofTag?_tag, Operator.ofTag?_tag, toValue_ofValue]
  show (if c.operator = .among && !c.value.isList then Except.error _ else Except.ok c) = _ ↔ _
  by_cases refused : (c.operator = .among && !c.value.isList) = true
  · rw [if_pos refused]
    rw [Bool.and_eq_true, decide_eq_true_eq, Bool.not_eq_true'] at refused
    refine ⟨nofun, ?_⟩
    rintro ⟨_, membership⟩
    rw [membership refused.1] at refused
    cases refused.2
  · rw [if_neg refused, Except.ok.injEq]
    refine ⟨fun same => ⟨same.symm, ?_⟩, fun h => h.1.symm⟩
    intro among
    by_contra noList
    exact refused (by simp [among, noList])

/-- The trees of triggers pass the check exactly if each trigger is well formed. -/
private theorem toTriggers_eq_ok_iff {children ts : List Trigger}
    (h : ∀ child ∈ children, ∀ t, (Tree.ofTrigger child).toTrigger = .ok t ↔
      t = child ∧ child.WellFormed) :
    Tree.toTriggers (children.map Tree.ofTrigger) = .ok ts ↔
      ts = children ∧ ∀ child ∈ children, child.WellFormed := by
  -- By induction on the children. The first that fails ends the check.
  induction children generalizing ts with
  | nil =>
    show Except.ok [] = Except.ok ts ↔ _
    rw [Except.ok.injEq]
    exact ⟨fun same => ⟨same.symm, by simp⟩, fun h => h.1.symm⟩
  | cons child children ih =>
    have first := h child (by simp)
    have others := fun {ts} => @ih ts fun child mem => h child (List.mem_cons_of_mem _ mem)
    rw [List.map_cons, Tree.toTriggers, List.forall_mem_cons]
    constructor
    · intro read
      cases one : (Tree.ofTrigger child).toTrigger with
      | error violation =>
        rw [one] at read
        cases read
      | ok t =>
        obtain ⟨rfl, wellFormed⟩ := (first t).mp one
        cases more : Tree.toTriggers (children.map Tree.ofTrigger) with
        | error violation =>
          rw [one, more] at read
          cases read
        | ok ts =>
          obtain ⟨rfl, each⟩ := others.mp more
          rw [one, more] at read
          cases read
          exact ⟨rfl, wellFormed, each⟩
    · rintro ⟨rfl, wellFormed, each⟩
      rw [(first child).mpr ⟨rfl, wellFormed⟩, others.mpr ⟨rfl, each⟩]
      rfl

/-- The tree of a trigger passes the check exactly if the trigger is well formed, and
then it is the trigger's. -/
theorem toTrigger_eq_ok_iff {t t' : Trigger} :
    (Tree.ofTrigger t).toTrigger = .ok t' ↔ t' = t ∧ t.WellFormed := by
  induction t using Trigger.induction generalizing t' with
  | condition c =>
    rw [Tree.ofTrigger, Tree.toTrigger]
    constructor
    · intro read
      cases one : condition c.field.tag c.operator.tag (.ofValue c.value) with
      | error violation =>
        rw [one] at read
        cases read
      | ok c' =>
        obtain ⟨rfl, membership⟩ := condition_eq_ok_iff.mp one
        rw [one] at read
        cases read
        exact ⟨rfl, fun _ mem => absurd mem List.not_mem_nil,
          List.forall_mem_singleton.mpr membership⟩
    · rintro ⟨rfl, -, lists⟩
      rw [condition_eq_ok_iff.mpr ⟨rfl, lists c (List.mem_singleton_self c)⟩]
      rfl
  | group connective children ih =>
    have inner := fun {ts} => @toTriggers_eq_ok_iff children ts fun child mem t => ih child mem
    rw [Tree.ofTrigger, ofTriggers_eq_map, Tree.toTrigger, known, Connective.ofTag?_tag,
      Trigger.wellFormed_group, List.length_map]
    show (if connective.acceptsArity children.length = true then
      Trigger.group connective <$> Tree.toTriggers (children.map Tree.ofTrigger)
      else Except.error _) = _ ↔ _
    by_cases arity : connective.acceptsArity children.length = true
    · rw [if_pos arity]
      constructor
      · intro read
        cases all : Tree.toTriggers (children.map Tree.ofTrigger) with
        | error violation =>
          rw [all] at read
          cases read
        | ok ts =>
          obtain ⟨rfl, each⟩ := inner.mp all
          rw [all] at read
          cases read
          exact ⟨rfl, arity, each⟩
      · rintro ⟨rfl, -, each⟩
        rw [inner.mpr ⟨rfl, each⟩]
        rfl
    · rw [if_neg arity]
      exact ⟨nofun, fun h => absurd h.2.1 arity⟩

/-! ### Actions -/

/-- Things that are stored one by one come back one by one. -/
private theorem mapM_map {α β : Type} {store : α → β} {restore : β → Except Violation α}
    (h : ∀ a, restore (store a) = .ok a) (items : List α) :
    (items.map store).mapM restore = .ok items := by
  induction items with
  | nil => rfl
  | cons a items ih =>
    rw [List.map_cons, List.mapM_cons, h, ih]
    rfl

/-- A call with the data of some values is an action with these values set in order. -/
theorem toAction_listed (kind : ActionKind) (pairs : List (String × Value)) :
    (Call.mk kind.tag (pairs.map fun pair => (pair.1, .ofValue pair.2))).toAction
      = .ok ⟨kind, .ofList pairs⟩ := by
  unfold Call.toAction known
  rw [ActionKind.ofTag?_tag, mapM_map fun pair => ?_]
  · rfl
  · show (do return (pair.1, ← (Datum.ofValue pair.2).toValue) : Except Violation _) = _
    rw [toValue_ofValue]
    rfl

/-- Every action is stored as a call of it. -/
theorem toAction_ofAction (action : Action) : (Call.ofAction action).toAction = .ok action := by
  rw [Call.ofAction, toAction_listed, Params.ofList_entries]

/-! ### Rules -/

/-- The record of a rule is that of its draft, which is checked again. It passes exactly
if the trigger is well formed, and then the rule comes back. -/
theorem toRule_ofRule (rule : ReviewRule) (digest : Option (List UInt8)) :
    (rule.trigger.WellFormed → (Record.ofRule rule digest).toRule = .ok rule) ∧
      (¬rule.trigger.WellFormed → ∃ violation,
        (Record.ofRule rule digest).toRule = .error violation) := by
  have target : known Target.ofTag? .unknownTarget (Record.ofRule rule digest).target
      = .ok rule.target := by
    show known Target.ofTag? .unknownTarget rule.target.tag = _
    rw [known, Target.ofTag?_tag]
  have trigger := fun {t} => @toTrigger_eq_ok_iff rule.trigger t
  constructor
  · intro wellFormed
    have actions : (Record.ofRule rule digest).actions.mapM Call.toAction = .ok rule.actions :=
      mapM_map toAction_ofAction rule.actions
    unfold Record.toRule
    rw [target, actions, show (Record.ofRule rule digest).trigger.toTrigger = .ok rule.trigger from
      trigger.mpr ⟨rfl, wellFormed⟩]
    show (if rule.trigger.conditions.length ≠ rule.trigger.conditions.length then Except.error _
      else if rule.actions.length ≠ rule.actions.length then Except.error _
      else rule.toDraft.build.mapError Violation.incompatible) = _
    rw [if_neg (not_not_intro rfl), if_neg (not_not_intro rfl), rule.build_toDraft]
    rfl
  · intro malformed
    unfold Record.toRule
    rw [target]
    cases read : (Record.ofRule rule digest).trigger.toTrigger with
    | error violation => exact ⟨violation, rfl⟩
    | ok t => exact absurd (trigger.mp read).2 malformed

end Blob

end ForumModeration
