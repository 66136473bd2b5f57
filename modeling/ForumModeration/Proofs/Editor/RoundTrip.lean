import ForumModeration.Proofs.Editor.Reading
import ForumModeration.Proofs.Grammar.Meanings
import ForumModeration.Proofs.Rendering.Totality

/-!
# `ForumModeration.Proofs.Editor.RoundTrip`: rules that are written are read back

An editor writes a trigger in either language and reads what it has written.
`renderRule_recovers` says what comes back: the trigger with its instants in the
editor's offset, where a group of one child that is no negation is replaced by the
child. It comes back if its text nests no deeper than 128 levels, which
`Trigger.levels` counts, and is refused for nesting too deep otherwise.
-/

set_option autoImplicit false

namespace ForumModeration

/-- What a phrase means is more than can be recovered, but for numbers. -/
theorem Value.Meant.recoverable {offset : Offset} {wantsDate : Bool} {v : Value}
    (meant : v.Meant offset wantsDate)
    (finite : ∀ number, v = .float number → number.isFinite = true) :
    v.Recoverable offset wantsDate := by
  cases v with
  | float number => exact finite number rfl
  | instant time =>
    obtain ⟨same, noLeap, short⟩ := meant
    refine ⟨noLeap, ?_⟩
    rw [← same]
    exact short
  | string text => exact meant
  | _ => trivial

namespace Editor

open Text

/-- What is written in both languages: the triggers in which `NOT` has one child and every
other connective has one or more. -/
theorem renderRule_ok_iff (offset : Offset) (mode : Mode) {trigger : Trigger} :
    (∃ text, ({ offset } : Editor).renderRule trigger mode = .ok text) ↔
      ∀ g ∈ trigger.groups, if g.1 = .not then g.2 = 1 else 1 ≤ g.2 := by
  unfold renderRule Renderer.rule
  constructor
  · rintro ⟨text, written⟩
    cases result : (({ offset } : Editor).renderer mode).trigger false trigger with
    | error e =>
      rw [result] at written
      cases written
    | ok characters => exact Renderer.arities_of_trigger_ok result
  · intro arities
    have hasToken : ∀ symbol,
        ((({ offset } : Editor).renderer mode).table.primary symbol).isOk = true :=
      (writable_table offset mode).hasToken
    obtain ⟨text, written⟩ := Renderer.trigger_ok hasToken arities false
    rw [written]
    exact ⟨String.ofList text, rfl⟩

/-- Groups that have as many children as their connectives take are written. -/
theorem renderRule_of_arities (offset : Offset) (mode : Mode) {trigger : Trigger}
    (arities : ∀ g ∈ trigger.groups, g.1.acceptsArity g.2 = true) :
    ∃ text, ({ offset } : Editor).renderRule trigger mode = .ok text := by
  refine (renderRule_ok_iff offset mode).mpr fun g mem => ?_
  have arity := Connective.acceptsArity_iff.mp (arities g mem)
  split at arity
  · rename_i negation
    rwa [if_pos negation]
  · rename_i binary
    rw [if_neg binary]
    omega

/-- A trigger whose groups are well formed is written, and what is written is read back
if there are enough levels of nesting for it. -/
theorem renderRule_of_acceptsArity (offset : Offset) (clock : Clock) (mode : Mode)
    {trigger : Trigger} (arities : ∀ g ∈ trigger.groups, g.1.acceptsArity g.2 = true)
    (lists : ∀ c ∈ trigger.conditions, c.operator = .among → c.value.isList = true)
    (scalars : ∀ c ∈ trigger.conditions, ∀ v ∈ c.value.scalars,
      v.Recoverable offset c.field.isTime) :
    ∃ text, ({ offset } : Editor).renderRule trigger mode = .ok text ∧
      (trigger.levels false ≤ 128 →
        ((({ offset } : Editor).parseRule text mode).run clock).1 = .ok (trigger.shownIn offset)) ∧
      (128 < trigger.levels false →
        ∃ d, ((({ offset } : Editor).parseRule text mode).run clock).1 = .error d ∧
          d.trouble = .expected "shallower nesting") := by
  obtain ⟨text, written, reads, refuses⟩ :=
    Renderer.rule_recovers (({ offset } : Editor).renderer mode)
      ((clock.readings 0).withOffset offset) (legible_table offset mode)
      (writable_table offset mode) rfl arities lists scalars
  refine ⟨String.ofList text, ?_, ?_, ?_⟩
  · unfold renderRule
    rw [written]
    rfl
  · intro enough
    rw [parseRule_eq_ok_iff, String.toList_ofList]
    exact reads enough
  · intro tooDeep
    obtain ⟨stop, failed⟩ := refuses tooDeep
    rw [← String.toList_ofList (l := text)] at failed
    exact parseRule_of_tooDeep failed

/-- A trigger is written in either language and read back, up to groups of one child and
the offset of instants, if its text nests at most 128 levels deep. Otherwise it is
written and refused for nesting too deep. The trigger may be any that

- has one child for each `NOT` and one child or more for each other group,
- compares with a list where it tests membership, and
- has only scalars that can be recovered where they stand. -/
theorem renderRule_recovers (offset : Offset) (clock : Clock) (mode : Mode) (trigger : Trigger)
    (arities : ∀ g ∈ trigger.groups, if g.1 = .not then g.2 = 1 else 1 ≤ g.2)
    (lists : ∀ c ∈ trigger.conditions, c.operator = .among → c.value.isList = true)
    (scalars : ∀ c ∈ trigger.conditions, ∀ v ∈ c.value.scalars,
      v.Recoverable offset c.field.isTime) :
    ∃ text, ({ offset } : Editor).renderRule trigger mode = .ok text ∧
      (trigger.collapse.levels false ≤ 128 →
        ((({ offset } : Editor).parseRule text mode).run clock).1
          = .ok (trigger.collapse.shownIn offset)) ∧
      (128 < trigger.collapse.levels false →
        ∃ d, ((({ offset } : Editor).parseRule text mode).run clock).1 = .error d ∧
          d.trouble = .expected "shallower nesting") := by
  have same : ({ offset } : Editor).renderRule trigger.collapse mode
      = ({ offset } : Editor).renderRule trigger mode := by
    unfold renderRule Renderer.rule
    rw [Renderer.trigger_collapse]
  -- The collapsed trigger is written alike, and its groups are well formed.
  rw [← same]
  rw [← Trigger.conditions_collapse trigger] at lists scalars
  exact renderRule_of_acceptsArity offset clock mode (Trigger.acceptsArity_collapse arities) lists
    scalars

/-- At the start of 1970, a negation of a group of one child on a field of time: the
group is gone when the text is read, and the instant is shown eight hours east. -/
theorem renderRule_recovers_negation :
    ∃ text, ({} : Editor).renderRule (.group .not [.group .and [.condition
        ⟨.createTime, .lt, .instant ⟨0, 0, .utc, by decide⟩⟩]]) .dsl = .ok text ∧
      (((({} : Editor).parseRule text .dsl).run (.fixed ⟨0, 0, .utc, by decide⟩)).1
        = .ok (.group .not [.condition
          ⟨.createTime, .lt, .instant ⟨0, 0, .china, by decide⟩⟩])) := by
  obtain ⟨text, written, reads, -⟩ := renderRule_recovers .china
    (.fixed ⟨0, 0, .utc, by decide⟩) .dsl (.group .not [.group .and [.condition
      ⟨.createTime, .lt, .instant ⟨0, 0, .utc, by decide⟩⟩]]) (by decide) (by decide)
    (fun c mem v found => by
      obtain rfl := List.mem_singleton.mp mem
      obtain rfl := List.mem_singleton.mp found
      exact ⟨rfl, by decide⟩)
  exact ⟨text, written, reads (by decide)⟩

/-! ### What was read is written -/

/-- A rule that was read from text, in the offset in which it was read, has a meaning, if the
present can be written. -/
theorem meant_of_parseRule {offset : Offset} {clock : Clock} {text : String} {mode : Mode}
    {trigger : Trigger} (noLeap : (clock.readings 0).isLeap = false)
    (short : Grammar.hasShortYear ((clock.readings 0).withOffset offset) = true)
    (read : ((({ offset } : Editor).parseRule text mode).run clock).1 = .ok trigger) :
    trigger.Meant offset := by
  have noLeap' : ((clock.readings 0).withOffset offset).isLeap = false := noLeap
  have phrase := Grammar.rulePhrase_of_rule (parseRule_eq_ok_iff.mp read)
  exact rulePhrase_meaning noLeap' short phrase

/-- A rule that was read from text, in the offset in which it was read, has well-formed
groups and recoverable scalars, if its numbers are finite and the present can be
written. -/
theorem recoverable_of_parseRule {offset : Offset} {clock : Clock} {text : String} {mode : Mode}
    {trigger : Trigger} (noLeap : (clock.readings 0).isLeap = false)
    (short : Grammar.hasShortYear ((clock.readings 0).withOffset offset) = true)
    (read : ((({ offset } : Editor).parseRule text mode).run clock).1 = .ok trigger)
    (finite : ∀ c ∈ trigger.conditions, ∀ number, .float number ∈ c.value.scalars →
      number.isFinite = true) :
    trigger.Meant offset ∧
      ∀ c ∈ trigger.conditions, ∀ v ∈ c.value.scalars, v.Recoverable offset c.field.isTime := by
  have meant := meant_of_parseRule noLeap short read
  refine ⟨meant, ?_⟩
  intro c mem v found
  exact ((meant.conditions c mem).2 v found).recoverable fun number same =>
    finite c mem number (same ▸ found)

/-- A rule that was read can be written in both languages, if its numbers are finite and
the present can be written. What is written is read back as the same rule exactly if it
nests at most 128 levels deep, at whatever time it is read, and else it is refused for
nesting too deep. Reading the rule in the first place may have taken fewer levels. -/
theorem parseRule_rendered_iff_levels (offset : Offset) (clock : Clock) (text : String)
    (mode : Mode) (trigger : Trigger) (noLeap : (clock.readings 0).isLeap = false)
    (short : Grammar.hasShortYear ((clock.readings 0).withOffset offset) = true)
    (read : ((({ offset } : Editor).parseRule text mode).run clock).1 = .ok trigger)
    (finite : ∀ c ∈ trigger.conditions, ∀ number, .float number ∈ c.value.scalars →
      number.isFinite = true) (mode' : Mode) :
    ∃ written, ({ offset } : Editor).renderRule trigger mode' = .ok written ∧
      ∀ later : Clock,
        (((({ offset } : Editor).parseRule written mode').run later).1 = .ok trigger ↔
          trigger.levels false ≤ 128) ∧
        (128 < trigger.levels false →
          ∃ d, ((({ offset } : Editor).parseRule written mode').run later).1 = .error d ∧
            d.trouble = .expected "shallower nesting") := by
  obtain ⟨meant, scalars⟩ := recoverable_of_parseRule noLeap short read finite
  have recovers := fun later => renderRule_of_acceptsArity offset later mode' meant.arities
    (fun c mem => (meant.conditions c mem).1) scalars
  have shown : trigger.shownIn offset = trigger :=
    Trigger.shownIn_eq_self fun c mem time found => ((meant.conditions c mem).2 _ found).1
  rw [shown] at recovers
  -- What is written does not depend on the time, so one text serves every clock.
  obtain ⟨written, rendered, -⟩ := recovers clock
  refine ⟨written, rendered, ?_⟩
  intro later
  obtain ⟨written', rendered', reads, refuses⟩ := recovers later
  obtain rfl : written = written' := Except.ok.inj (rendered.symm.trans rendered')
  refine ⟨⟨?_, reads⟩, refuses⟩
  intro again
  by_contra tooDeep
  obtain ⟨d, refused, -⟩ := refuses (by omega)
  rw [again] at refused
  cases refused

/-! ### Negations -/

/-- Up to 128 negations are read. -/
theorem parseRule_negations (offset : Offset) (clock : Clock) {n : Nat} (bounded : n ≤ 128) :
    ((({ offset } : Editor).parseRule (String.ofList (negations n)) .dsl).run clock).1
      = .ok (Trigger.negate^[n] (.condition ⟨.floor, .gt, .int 1⟩)) := by
  rw [parseRule_eq_ok_iff, String.toList_ofList]
  exact Grammar.rule_of_rulePhrase (rulePhrase_negations _ n) bounded

/-- A negation is written with parentheses, so it takes up two levels of nesting. -/
theorem levels_negations (n : Nat) :
    (Trigger.negate^[n] (.condition ⟨.floor, .gt, .int 1⟩)).levels false = 2 * n := by
  induction n with
  | zero => rfl
  | succ n ih =>
    rw [Function.iterate_succ_apply', Trigger.negate, Trigger.levels,
      if_pos (show Connective.not.isUnary = true from rfl), Trigger.levelsOf, Trigger.levelsOf, ih]
    omega

/-- Negations hold no floating-point number. -/
theorem finite_negations (n : Nat) :
    ∀ c ∈ (Trigger.negate^[n] (.condition ⟨.floor, .gt, .int 1⟩)).conditions,
      ∀ number, .float number ∈ c.value.scalars → number.isFinite = true := by
  have conditions : (Trigger.negate^[n] (.condition ⟨.floor, .gt, .int 1⟩)).conditions
      = [⟨.floor, .gt, .int 1⟩] := by
    induction n with
    | zero => rfl
    | succ n ih =>
      rw [Function.iterate_succ_apply', Trigger.negate, Trigger.conditions_group,
        List.flatMap_singleton, ih]
  rw [conditions]
  intro c mem number found
  obtain rfl := List.mem_singleton.mp mem
  exact nomatch List.mem_singleton.mp found

/-- At the start of 1970, 64 negations are written in Chinese and read back from that. -/
theorem parseRule_rendered_iff_levels_negations :
    ∃ written, ({} : Editor).renderRule
        (Trigger.negate^[64] (.condition ⟨.floor, .gt, .int 1⟩)) .cnl = .ok written ∧
      (((({} : Editor).parseRule written .cnl).run (.fixed ⟨0, 0, .utc, by decide⟩)).1
        = .ok (Trigger.negate^[64] (.condition ⟨.floor, .gt, .int 1⟩))) := by
  obtain ⟨written, rendered, reads⟩ := parseRule_rendered_iff_levels .china
    (.fixed ⟨0, 0, .utc, by decide⟩) (String.ofList (negations 64)) .dsl _ rfl (by decide)
    (parseRule_negations .china _ (by decide)) (finite_negations 64) .cnl
  exact ⟨written, rendered, (reads _).1.mpr (levels_negations 64).le⟩

/-- At the start of 1970, 65 negations are read, and what is written for them is refused
for nesting too deep. -/
theorem negations_not_read_back :
    (((({} : Editor).parseRule (String.ofList (negations 65)) .dsl).run
        (.fixed ⟨0, 0, .utc, by decide⟩)).1
        = .ok (Trigger.negate^[65] (.condition ⟨.floor, .gt, .int 1⟩))) ∧
      ∃ written, ({} : Editor).renderRule
          (Trigger.negate^[65] (.condition ⟨.floor, .gt, .int 1⟩)) .dsl = .ok written ∧
        ∃ d, ((({} : Editor).parseRule written .dsl).run (.fixed ⟨0, 0, .utc, by decide⟩)).1
            = .error d ∧ d.trouble = .expected "shallower nesting" := by
  have read := parseRule_negations .china (.fixed ⟨0, 0, .utc, by decide⟩)
    (show 65 ≤ 128 by decide)
  obtain ⟨meant, scalars⟩ :=
    recoverable_of_parseRule (by rfl) (by decide) read (finite_negations 65)
  obtain ⟨written, rendered, -, refuses⟩ := renderRule_of_acceptsArity .china
    (.fixed ⟨0, 0, .utc, by decide⟩) .dsl meant.arities
    (fun c mem => (meant.conditions c mem).1) scalars
  refine ⟨read, written, rendered, refuses ?_⟩
  rw [levels_negations]
  decide

end Editor

end ForumModeration
