import ForumModeration.Proofs.Editor.Calls
import ForumModeration.Proofs.Editor.Storage
import ForumModeration.Proofs.Json.RoundTrip

/-!
# `ForumModeration.Proofs.Editor.StoredForms`: the two forms in which rules are kept

A rule that an editor made from text is kept as JSON or as a blob. A blob names the type of each
value and holds the bits of floating-point numbers, so the rule comes back from it as it was. JSON
leaves the type to be found out and the bits to be computed from digits, and it may not be nested
too deeply. `Editor.storedForms_agree_iff` says which rules come back from both forms alike.

Everything that an editor reads can be told from the JSON it is written as, since instants are in
the offset of the editor and can be written as dates (`Editor.portable_of_reviewRule`). What can
be mistaken for something else is only a string that spells a timestamp. What can be changed is
only a floating-point number, in its last bits.
-/

set_option autoImplicit false

namespace ForumModeration

/-- A scalar that a phrase means can be told from what JSON says of it, if numbers are finite and
the offset is one of whole minutes. -/
theorem Value.Meant.portable {offset : Offset} {wantsDate : Bool} {v : Value}
    (meant : v.Meant offset wantsDate) (wholeMinutes : offset.seconds % 60 = 0)
    (finite : ∀ number, v = .float number → number.isFinite = true) : v.Portable := by
  cases v with
  | float number => exact finite number rfl
  | instant time =>
    obtain ⟨rfl, noLeap, shortYear⟩ := meant
    exact ⟨noLeap, shortYear, wholeMinutes⟩
  | _ => trivial

namespace Editor

variable {editor : Editor} {clock : Clock} {mode : Mode} {name trigger actions : String}
  {target : Target}

/-- The present can be written as a date in the editor's offset, at both readings of the clock
that a review rule takes. -/
def Dated (editor : Editor) (clock : Clock) : Prop :=
  ∀ n < 2, (clock.readings n).isLeap = false ∧
    Grammar.hasShortYear ((clock.readings n).withOffset editor.offset) = true

/-- All scalars of a review rule can be told from what JSON says of them, if its numbers are
finite. -/
theorem portable_of_reviewRule {rule : ReviewRule}
    (built : ((editor.reviewRule name trigger actions target mode).run clock).1 = .ok rule)
    (finite : ∀ number, .float number ∈ rule.scalars → number.isFinite = true)
    (wholeMinutes : editor.offset.seconds % 60 = 0) (dated : editor.Dated clock) :
    ∀ s ∈ rule.scalars, s.Portable := by
  have noLeap : ∀ n < 2, ((clock.readings n).withOffset editor.offset).isLeap = false :=
    fun n two => (dated n two).1
  have shortYear := fun n two => (dated n two).2
  have phrase : RulePhrase (editor.table mode) ((clock.readings 0).withOffset editor.offset) 128
      trigger.toList rule.trigger :=
    Grammar.rulePhrase_of_rule (parseRule_eq_ok_iff.mp (parseRule_of_reviewRule built))
  have ofTrigger : rule.trigger.Meant editor.offset :=
    rulePhrase_meaning (noLeap 0 (by decide)) (shortYear 0 (by decide)) phrase
  have calls := parseActions_eq_ok_iff.mp (parseActions_of_reviewRule built)
  rw [show clock.read.2.readings 0 = clock.readings 1 from rfl] at calls
  have ofActions : ∀ action ∈ rule.actions, ∀ entry ∈ action.params.entries,
      entry.2.isList = false ∧ entry.2.Meant editor.offset false :=
    Grammar.calls_meaning (noLeap 1 (by decide)) (shortYear 1 (by decide))
      (Parser.complete_eq_ok.mp calls)
  intro s mem
  have finite : ∀ number, s = .float number → number.isFinite = true :=
    fun number same => finite number (same ▸ mem)
  rcases List.mem_append.mp mem with inTrigger | inActions
  · obtain ⟨c, listed, found⟩ := List.mem_flatMap.mp inTrigger
    exact ((ofTrigger.conditions c listed).2 s found).portable wholeMinutes finite
  · obtain ⟨action, listed, inParams⟩ := List.mem_flatMap.mp inActions
    obtain ⟨entry, set, found⟩ := List.mem_flatMap.mp inParams
    obtain ⟨noList, meant⟩ := ofActions action listed entry set
    rw [Value.scalars_of_isList noList, List.mem_singleton] at found
    subst found
    exact meant.portable wholeMinutes finite

/-- What comes back from the two forms of a review rule. -/
theorem loaded_of_reviewRule {rule : ReviewRule} {source : Option String}
    (built : ((editor.reviewRule name trigger actions target mode).run clock).1 = .ok rule)
    (finite : ∀ number, .float number ∈ rule.scalars → number.isFinite = true)
    (small : (Blob.Record.ofRule rule
      (source.map fun text => Blake3.digest (Blob.utf8 text))).write.length < 0x100000000)
    (wholeMinutes : editor.offset.seconds % 60 = 0) (dated : editor.Dated clock) :
    ReviewRule.ofBlob (rule.toBlob source) = .ok rule ∧
      ReviewRule.ofJson rule.toJson =
        if rule.nesting ≤ 127 then .ok rule.reloaded else .error .malformed :=
  ⟨(ReviewRule.ofBlob_toBlob_iff (wellFormed_of_parseRule (parseRule_of_reviewRule built))
      source).mpr small,
    ReviewRule.ofJson_toJson (portable_of_reviewRule built finite wholeMinutes dated)⟩

/-- A review rule that an editor makes, whatever its tables are, comes back from its blob as it
was. It comes back from JSON if no more than 127 arrays and objects are in each other there, with
every string that is a timestamp replaced by the instant, and every floating-point number by the
one that its digits are read as. So both forms come back alike exactly if the rule does not nest
too deeply, no string in it is a timestamp and the digits of each number are read as that
number. -/
theorem storedForms_agree_iff (editor : Editor) (clock : Clock) (mode : Mode)
    (name trigger actions : String) (target : Target) (rule : ReviewRule) (source : Option String)
    (built : ((editor.reviewRule name trigger actions target mode).run clock).1 = .ok rule)
    (finite : ∀ number, .float number ∈ rule.scalars → number.isFinite = true)
    (small : (Blob.Record.ofRule rule
      (source.map fun text => Blake3.digest (Blob.utf8 text))).write.length < 0x100000000)
    (wholeMinutes : editor.offset.seconds % 60 = 0) (dated : editor.Dated clock) :
    ReviewRule.ofBlob (rule.toBlob source) = .ok rule ∧
    (ReviewRule.ofJson rule.toJson =
      if rule.nesting ≤ 127 then .ok rule.reloaded else .error .malformed) ∧
    ((∃ loaded, ReviewRule.ofJson rule.toJson = .ok loaded ∧
        ReviewRule.ofBlob (rule.toBlob source) = .ok loaded) ↔
      rule.nesting ≤ 127 ∧
        (∀ text, .string text ∈ rule.scalars → Timestamp.read? text.toList = none) ∧
        ∀ number, .float number ∈ rule.scalars → number.reread = number) := by
  obtain ⟨ofBlob, ofJson⟩ := loaded_of_reviewRule built finite small wholeMinutes dated
  refine ⟨ofBlob, ofJson, ?_⟩
  rw [ofBlob, ofJson, ← Value.forall_stays_iff, ← ReviewRule.reloaded_eq_self_iff]
  constructor
  · rintro ⟨loaded, json, blob⟩
    cases blob
    by_cases fits : rule.nesting ≤ 127
    · rw [if_pos fits] at json
      exact ⟨fits, Except.ok.inj json⟩
    · rw [if_neg fits] at json
      cases json
  · rintro ⟨fits, same⟩
    exact ⟨rule, by rw [if_pos fits, same], rfl⟩

/-- A negation beside a test of membership, and an action with a parameter that is no integer. -/
theorem storedForms_agree_iff_membership :
    let rule : ReviewRule := ⟨{
      name := "", trigger := .group .and [.group .not [.condition ⟨.level, .lt, .int 3⟩],
        .condition ⟨.title, .among, .list [.string "a", .string "b"]⟩],
      actions := [⟨.ban, .ofList [("days", .float (.nearest false ⟨25, -1⟩))]⟩] }, by decide⟩
    ((({} : Editor).reviewRule "" "not level < 3 and title in ['a', 'b']" "do: ban(days=2.5)" .all
        .dsl).run (.fixed ⟨0, 0, .utc, by decide⟩)).1 = .ok rule ∧
      ∃ loaded, ReviewRule.ofJson rule.toJson = .ok loaded ∧
        ReviewRule.ofBlob (rule.toBlob none) = .ok loaded := by
  intro rule
  have built : ((({} : Editor).reviewRule "" "not level < 3 and title in ['a', 'b']"
      "do: ban(days=2.5)" .all .dsl).run (.fixed ⟨0, 0, .utc, by decide⟩)).1 = .ok rule :=
    reviewRule_of_read "" (parseRule_eq_ok_iff.mpr (by decide +kernel))
      (parseActions_eq_ok_iff.mpr (by decide +kernel)) (by decide)
  have scalars : rule.scalars
      = [.int 3, .string "a", .string "b", .float (.nearest false ⟨25, -1⟩)] := by decide +kernel
  have forms := storedForms_agree_iff {} (.fixed ⟨0, 0, .utc, by decide⟩) .dsl "" _ _ .all rule none
    built (by rw [scalars]; simp; decide +kernel) (by decide +kernel) (by decide)
    (fun _ _ => ⟨rfl, rfl⟩)
  refine ⟨built, forms.2.2.mpr ⟨by decide +kernel, ?_, ?_⟩⟩
  · intro text mem
    rw [scalars] at mem
    obtain rfl | rfl : text = "a" ∨ text = "b" := by simpa using mem
    all_goals decide +kernel
  · intro number mem
    rw [scalars] at mem
    obtain rfl : number = .nearest false ⟨25, -1⟩ := by simpa using mem
    decide +kernel

/-- A rule with a string that is a timestamp, one with a number that is read from its digits as
another one, and one with 63 negations. All come back from their blobs as they were. From JSON,
the first comes back with an instant in place of the string, the second with the other number, and
the third is refused for nesting too deep. -/
theorem storedForms_differ :
    let clock := Clock.fixed ⟨0, 0, .utc, by decide⟩
    let stamped : ReviewRule := ⟨{
      name := "", trigger := .condition ⟨.title, .eq, .string "2023-01-01T00:00:00Z"⟩,
      actions := [⟨.delete, ∅⟩] }, by decide⟩
    let number : Binary64 := .nearest false ⟨31245270191439438, -15⟩
    let other : Binary64 := .nearest false ⟨3124527019143944, -14⟩
    let measured : ReviewRule := ⟨{
      name := "", trigger := .condition ⟨.floor, .gt, .float number⟩,
      actions := [⟨.delete, ∅⟩] }, by decide⟩
    let negated : ReviewRule := ⟨{
      name := "", trigger := Trigger.negate^[63] (.condition ⟨.floor, .gt, .int 1⟩),
      actions := [⟨.delete, ∅⟩] }, by decide +kernel⟩
    (((({} : Editor).reviewRule "" "title = '2023-01-01T00:00:00Z'" "do: delete()" .all
          .dsl).run clock).1 = .ok stamped ∧
      ReviewRule.ofBlob (stamped.toBlob none) = .ok stamped ∧
      ReviewRule.ofJson stamped.toJson = .ok ⟨{ stamped.toDraft with
        trigger := .condition ⟨.title, .eq, .instant ⟨1672531200, 0, .utc, by decide⟩⟩ },
        by decide⟩) ∧
    (((({} : Editor).reviewRule "" "floor > 31.245270191439438" "do: delete()" .all
          .dsl).run clock).1 = .ok measured ∧
      ReviewRule.ofBlob (measured.toBlob none) = .ok measured ∧ number ≠ other ∧
      ReviewRule.ofJson measured.toJson = .ok ⟨{ measured.toDraft with
        trigger := .condition ⟨.floor, .gt, .float other⟩ }, by decide⟩) ∧
    ((({} : Editor).reviewRule "" (String.ofList (negations 63)) "do: delete()" .all
          .dsl).run clock).1 = .ok negated ∧
      ReviewRule.ofBlob (negated.toBlob none) = .ok negated ∧
      ReviewRule.ofJson negated.toJson = .error .malformed := by
  intro clock stamped number other measured negated
  have delete : ((({} : Editor).parseActions "do: delete()" .dsl).run clock.read.2).1
      = .ok [⟨.delete, ∅⟩] := parseActions_eq_ok_iff.mpr (by decide +kernel)
  refine ⟨?_, ?_, ?_⟩
  · have built := reviewRule_of_read "" (parseRule_eq_ok_iff.mpr
      (show ((({} : Editor).grammar .dsl (clock.readings 0)).rule.complete
        "title = '2023-01-01T00:00:00Z'".toList) = .ok stamped.trigger by decide +kernel))
      delete stamped.compatible
    have scalars : stamped.scalars = [.string "2023-01-01T00:00:00Z"] := by decide +kernel
    obtain ⟨ofBlob, ofJson⟩ : ReviewRule.ofBlob (stamped.toBlob none) = .ok stamped ∧ _ :=
      loaded_of_reviewRule built (by rw [scalars]; simp) (by decide +kernel) (by decide)
        fun _ _ => ⟨rfl, rfl⟩
    rw [if_pos (by decide +kernel)] at ofJson
    exact ⟨built, ofBlob, ofJson⟩
  · have built := reviewRule_of_read "" (parseRule_eq_ok_iff.mpr
      (show ((({} : Editor).grammar .dsl (clock.readings 0)).rule.complete
        "floor > 31.245270191439438".toList) = .ok measured.trigger by decide +kernel))
      delete measured.compatible
    have scalars : measured.scalars = [.float number] := by decide +kernel
    have finite : number.isFinite = true := by decide +kernel
    obtain ⟨ofBlob, ofJson⟩ : ReviewRule.ofBlob (measured.toBlob none) = .ok measured ∧ _ :=
      loaded_of_reviewRule built (by rw [scalars]; simpa using finite) (by decide +kernel)
        (by decide) fun _ _ => ⟨rfl, rfl⟩
    have back : measured.reloaded = ⟨{ measured.toDraft with
        trigger := .condition ⟨.floor, .gt, .float other⟩ }, by decide⟩ :=
      (ReviewRule.mk.injEq _ measured.reloaded.compatible _ _).mpr (by decide +kernel)
    rw [if_pos (by decide +kernel), back] at ofJson
    exact ⟨built, ofBlob, by decide +kernel, ofJson⟩
  · have built := reviewRule_of_read "" (parseRule_negations .china clock (by decide)) delete
      negated.compatible
    have scalars : negated.scalars = [.int 1] := by decide +kernel
    obtain ⟨ofBlob, ofJson⟩ : ReviewRule.ofBlob (negated.toBlob none) = .ok negated ∧ _ :=
      loaded_of_reviewRule built (by rw [scalars]; simp) (by decide +kernel) (by decide)
        fun _ _ => ⟨rfl, rfl⟩
    rw [if_neg (by decide +kernel)] at ofJson
    exact ⟨built, ofBlob, ofJson⟩

end Editor

end ForumModeration
