import ForumModeration.Proofs.Editor.Calls
import ForumModeration.Proofs.Editor.Reading
import ForumModeration.Proofs.Grammar.Shifts

/-!
# `ForumModeration.Proofs.Editor.Clocks`: the clock only shifts

What an editor reads depends on the clock through the instant that its first reading shows.
`parse_shifts_with_clock` says how much it can depend on it, with any tables and any offset:
at two instants a text gives the same trees but for instants that are the same span apart,
or the same diagnostic, unless in one of the two readings a relative time leaves the range
of dates.
-/

set_option autoImplicit false

namespace ForumModeration.Editor

/-- How two results of reading one text go together: both are trees, which are related, or
both are the same diagnostic, or one of them is the diagnostic of a time out of range. -/
inductive SameButFor {α : Type} (R : α → α → Prop) :
    Except Diagnostic α → Except Diagnostic α → Prop
  | read {a b : α} (related : R a b) : SameButFor R (.ok a) (.ok b)
  | refused (diagnostic : Diagnostic) : SameButFor R (.error diagnostic) (.error diagnostic)
  | left {diagnostic : Diagnostic} (result : Except Diagnostic α)
    (outOfRange : diagnostic.trouble = .expected "time offset within range") :
    SameButFor R (.error diagnostic) result
  | right {diagnostic : Diagnostic} (result : Except Diagnostic α)
    (outOfRange : diagnostic.trouble = .expected "time offset within range") :
    SameButFor R result (.error diagnostic)

/-- Reading a whole text keeps two readers side by side. -/
theorem sameButFor_readWith {α : Type} {R : α → α → Prop} {p q : Parser α}
    (both : Parser.Parallel R p q) (stage : Stage) (text : String) :
    SameButFor R (readWith stage p text) (readWith stage q text) := by
  have alike := both text.toList
  unfold readWith Parser.complete
  generalize p text.toList = r, q text.toList = s at alike
  cases alike with
  | read rest related =>
    cases rest with
    | nil => exact .read related
    | cons => exact .refused _
  | failed failure => exact .refused _
  | left stop => exact .left _ rfl
  | right stop => exact .right _ rfl

/-- The grammars of one language at two instants that are no leap seconds. -/
theorem apart_grammar (editor : Editor) (mode : Mode) {now now' : Instant}
    (noLeap : now.isLeap = false) (noLeap' : now'.isLeap = false) :
    Grammar.Apart (now'.nanoseconds - now.nanoseconds) (editor.grammar mode now)
      (editor.grammar mode now') where
  lexicon := rfl
  strict := rfl
  strict' := rfl
  noLeap := noLeap
  noLeap' := noLeap'
  later := ⟨rfl, rfl⟩

/-- With any tables and dates in any offset: if two clocks show instants that are no leap
seconds, then a rule or an action list is read at both of them as trees of the same shape
that have the same names in the same places, and values that are equal or instants apart by
the span between the clocks; or it is refused at both with the same diagnostic; or it is
refused at one of them because a relative time leaves the range of dates. -/
theorem parse_shifts_with_clock (editor : Editor) (mode : Mode) (text : String)
    (clock clock' : Clock) (noLeap : (clock.readings 0).isLeap = false)
    (noLeap' : (clock'.readings 0).isLeap = false) :
    let span := (clock'.readings 0).nanoseconds - (clock.readings 0).nanoseconds
    SameButFor (Trigger.Shifted span) ((editor.parseRule text mode).run clock).1
        ((editor.parseRule text mode).run clock').1 ∧
      SameButFor (List.Forall₂ (Action.Shifted span)) ((editor.parseActions text mode).run clock).1
        ((editor.parseActions text mode).run clock').1 := by
  intro span
  have apart := editor.apart_grammar mode noLeap noLeap'
  exact ⟨sameButFor_readWith apart.rule .rule text, sameButFor_readWith apart.calls .action text⟩

/-- A relative time and the word for the present, read at the start of 1970 and a minute and a
half later. -/
theorem parse_shifts_with_clock_minute :
    let clock := Clock.fixed ⟨0, 0, .utc, by decide⟩
    let clock' := Clock.fixed ⟨90, 0, .utc, by decide⟩
    (∃ a b, ((({} : Editor).parseRule "create_time > 3d ago" .dsl).run clock).1 = .ok a ∧
      ((({} : Editor).parseRule "create_time > 3d ago" .dsl).run clock').1 = .ok b ∧
      Trigger.Shifted 90000000000 a b) ∧
    ∃ as bs, ((({} : Editor).parseActions "ban(since=now)" .dsl).run clock).1 = .ok as ∧
      ((({} : Editor).parseActions "ban(since=now)" .dsl).run clock').1 = .ok bs ∧
      List.Forall₂ (Action.Shifted 90000000000) as bs := by
  intro clock clock'
  constructor
  · have shifts := (parse_shifts_with_clock {} .dsl "create_time > 3d ago" clock clock' rfl rfl).1
    have read : ((({} : Editor).parseRule "create_time > 3d ago" .dsl).run clock).1
        = .ok (.condition ⟨.createTime, .gt, .instant ⟨-259200, 0, .china, by decide⟩⟩) :=
      parseRule_eq_ok_iff.mpr (by decide +kernel)
    have read' : ((({} : Editor).parseRule "create_time > 3d ago" .dsl).run clock').1
        = .ok (.condition ⟨.createTime, .gt, .instant ⟨-259110, 0, .china, by decide⟩⟩) :=
      parseRule_eq_ok_iff.mpr (by decide +kernel)
    rw [read, read'] at shifts
    cases shifts with
    | read related => exact ⟨_, _, read, read', related⟩
  · have shifts := (parse_shifts_with_clock {} .dsl "ban(since=now)" clock clock' rfl rfl).2
    have read : ((({} : Editor).parseActions "ban(since=now)" .dsl).run clock).1
        = .ok [⟨.ban, .ofList [("since", .instant ⟨0, 0, .china, by decide⟩)]⟩] :=
      parseActions_eq_ok_iff.mpr (by decide +kernel)
    have read' : ((({} : Editor).parseActions "ban(since=now)" .dsl).run clock').1
        = .ok [⟨.ban, .ofList [("since", .instant ⟨90, 0, .china, by decide⟩)]⟩] :=
      parseActions_eq_ok_iff.mpr (by decide +kernel)
    rw [read, read'] at shifts
    cases shifts with
    | read related => exact ⟨_, _, read, read', related⟩

end ForumModeration.Editor
