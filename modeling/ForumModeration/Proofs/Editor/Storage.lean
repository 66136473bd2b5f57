import ForumModeration.Blob
import ForumModeration.Proofs.Blob.Loading
import ForumModeration.Proofs.Compatibility
import ForumModeration.Proofs.Editor.RoundTrip

/-!
# `ForumModeration.Proofs.Editor.Storage`: rules that are read can be written and stored

Writing a rule, storing it and loading it again each have checks of their own: of the
number of children in a group, and of what membership is tested in. None of them ever
refuses a rule that was read, whatever the tables were (`Editor.parseRule_storable`), nor one
that was loaded from any bytes at all (`ReviewRule.storable_of_ofBlob`).
-/

set_option autoImplicit false

namespace ForumModeration

namespace Editor

variable {editor : Editor} {clock : Clock} {mode : Mode}

/-- What is read is well formed. -/
theorem wellFormed_of_parseRule {text : String} {trigger : Trigger}
    (read : ((editor.parseRule text mode).run clock).1 = .ok trigger) : trigger.WellFormed := by
  have phrase : RulePhrase (editor.table mode) ((clock.readings 0).withOffset editor.offset) 128
      text.toList trigger := Grammar.rulePhrase_of_rule (parseRule_eq_ok_iff.mp read)
  have shaped := rulePhrase_lists phrase
  exact ⟨shaped.arities, shaped.conditions⟩

/-- What is well formed is written in both languages. -/
theorem renderRule_of_wellFormed (offset : Offset) (mode : Mode) {trigger : Trigger}
    (h : trigger.WellFormed) :
    ∃ text, ({ offset } : Editor).renderRule trigger mode = .ok text :=
  renderRule_of_arities offset mode h.arities

/-- A review rule is built from what its two texts are read as, each with a reading of the
clock of its own. -/
theorem reviewRule_run (name trigger actions : String) (target : Target) :
    ((editor.reviewRule name trigger actions target mode).run clock).1 =
      match editor.parseRuleAt (clock.readings 0) trigger mode with
      | .error diagnostic => .error (.unreadable diagnostic)
      | .ok trigger =>
        match editor.parseActionsAt (clock.readings 1) actions mode with
        | .error diagnostic => .error (.unreadable diagnostic)
        | .ok actions =>
          (Draft.build { name, trigger, target, actions }).mapError .incompatible := by
  have first : (editor.parseRule trigger mode).run clock
      = (editor.parseRuleAt (clock.readings 0) trigger mode, clock.read.2) := rfl
  have second : (editor.parseActions actions mode).run clock.read.2
      = (editor.parseActionsAt (clock.readings 1) actions mode, clock.read.2.read.2) := rfl
  unfold reviewRule
  rw [StateT.run_bind, first]
  cases editor.parseRuleAt (clock.readings 0) trigger mode with
  | error diagnostic => rfl
  | ok trigger =>
    show ((editor.parseActions actions mode >>= _).run clock.read.2).1 = _
    rw [StateT.run_bind, second]
    cases editor.parseActionsAt (clock.readings 1) actions mode <;> rfl

/-- A review rule is made of a trigger and actions that are read, if the target has all fields
that are tested. -/
theorem reviewRule_of_read (name : String) {trigger actions : String} {target : Target}
    {read : Trigger} {called : List Action}
    (readTrigger : ((editor.parseRule trigger mode).run clock).1 = .ok read)
    (readActions : ((editor.parseActions actions mode).run clock.read.2).1 = .ok called)
    (compatible : ∀ c ∈ read.conditions, target.allows c.field = true) :
    ((editor.reviewRule name trigger actions target mode).run clock).1
      = .ok ⟨{ name, trigger := read, target, actions := called }, compatible⟩ := by
  have first : editor.parseRuleAt (clock.readings 0) trigger mode = .ok read := readTrigger
  have second : editor.parseActionsAt (clock.readings 1) actions mode = .ok called := readActions
  rw [reviewRule_run, first]
  dsimp only
  rw [second]
  exact congrArg (Except.mapError _) (ReviewRule.build_toDraft
    ⟨{ name, trigger := read, target, actions := called }, compatible⟩)

/-- The parts of a review rule are those that were read. -/
private theorem parts_of_reviewRule {name trigger actions : String} {target : Target}
    {rule : ReviewRule}
    (built : ((editor.reviewRule name trigger actions target mode).run clock).1 = .ok rule) :
    editor.parseRuleAt (clock.readings 0) trigger mode = .ok rule.trigger ∧
      editor.parseActionsAt (clock.readings 1) actions mode = .ok rule.actions := by
  rw [reviewRule_run] at built
  split at built
  · cases built
  · rename_i t readTrigger
    split at built
    · cases built
    · rename_i as readActions
      cases build : Draft.build { name, trigger := t, target, actions := as } with
      | error error =>
        rw [build] at built
        cases built
      | ok rule' =>
        rw [build] at built
        cases built
        rw [readTrigger, readActions, Draft.toDraft_of_build build]
        exact ⟨rfl, rfl⟩

/-- The trigger of a review rule is the one that was read. -/
theorem parseRule_of_reviewRule {name trigger actions : String} {target : Target}
    {rule : ReviewRule}
    (built : ((editor.reviewRule name trigger actions target mode).run clock).1 = .ok rule) :
    ((editor.parseRule trigger mode).run clock).1 = .ok rule.trigger :=
  (parts_of_reviewRule built).1

/-- The actions of a review rule are those that were read, at the second reading of the
clock. -/
theorem parseActions_of_reviewRule {name trigger actions : String} {target : Target}
    {rule : ReviewRule}
    (built : ((editor.reviewRule name trigger actions target mode).run clock).1 = .ok rule) :
    ((editor.parseActions actions mode).run clock.read.2).1 = .ok rule.actions :=
  (parts_of_reviewRule built).2

/-- With any tables: in a trigger that is read, `NOT` has one child and every other
connective has two or more, and membership is tested in lists. So the tables of both
languages can write it, with dates in any offset; and a review rule with such a trigger
comes back from its blob, if its record takes up less than 4 GiB. -/
theorem parseRule_storable (editor : Editor) (clock : Clock) (mode : Mode) :
    (∀ (text : String) (trigger : Trigger),
      ((editor.parseRule text mode).run clock).1 = .ok trigger →
        (∀ g ∈ trigger.groups, if g.1 = .not then g.2 = 1 else 2 ≤ g.2) ∧
        (∀ c ∈ trigger.conditions, c.operator = .among → c.value.isList = true) ∧
        ∀ (offset : Offset) (language : Mode),
          ∃ written, ({ offset } : Editor).renderRule trigger language = .ok written) ∧
    (∀ (name trigger actions : String) (target : Target) (rule : ReviewRule)
      (source : Option String),
      ((editor.reviewRule name trigger actions target mode).run clock).1 = .ok rule →
        (Blob.Record.ofRule rule
          (source.map fun text => Blake3.digest (Blob.utf8 text))).write.length < 0x100000000 →
        ReviewRule.ofBlob (rule.toBlob source) = .ok rule) := by
  constructor
  · intro text trigger read
    have wellFormed := wellFormed_of_parseRule read
    exact ⟨fun g mem => Connective.acceptsArity_iff.mp (wellFormed.arities g mem),
      wellFormed.lists, fun offset language => renderRule_of_wellFormed offset language wellFormed⟩
  · intro name trigger actions target rule source built small
    have wellFormed := wellFormed_of_parseRule (parseRule_of_reviewRule built)
    have passes := (Blob.toRule_ofRule rule
      (source.map fun text => Blake3.digest (Blob.utf8 text))).1 wellFormed
    unfold ReviewRule.ofBlob
    rw [Blob.record_toBlob small]
    show (Blob.Record.toRule _).mapError Blob.BlobError.invalid = _
    rw [passes]
    rfl

/-- A negation beside a test of membership can be written in the other language, and a
review rule that is made from it comes back from its blob. -/
theorem parseRule_storable_membership :
    let text := "not level < 3 and title in ['a', 'b']"
    let clock := Clock.fixed ⟨0, 0, .utc, by decide⟩
    (∃ written, ({} : Editor).renderRule (.group .and
        [.group .not [.condition ⟨.level, .lt, .int 3⟩],
          .condition ⟨.title, .among, .list [.string "a", .string "b"]⟩]) .cnl = .ok written) ∧
      ∃ rule, ((({} : Editor).reviewRule "" text "do: delete()" .all .dsl).run clock).1 = .ok rule ∧
        ReviewRule.ofBlob (rule.toBlob none) = .ok rule := by
  intro text clock
  have storable := parseRule_storable {} clock .dsl
  constructor
  · exact (storable.1 text _ (parseRule_eq_ok_iff.mpr (by decide +kernel))).2.2 .china .cnl
  · have small :
        (match ((({} : Editor).reviewRule "" text "do: delete()" .all .dsl).run clock).1 with
        | .ok rule => decide ((Blob.Record.ofRule rule none).write.length < 0x100000000)
        | .error _ => false) = true := by
      decide +kernel
    cases built : ((({} : Editor).reviewRule "" text "do: delete()" .all .dsl).run clock).1 with
    | error error =>
      rw [built] at small
      cases small
    | ok rule =>
      rw [built] at small
      exact ⟨rule, rfl, storable.2 _ _ _ _ rule none built (of_decide_eq_true small)⟩

end Editor

/-- A rule that is loaded from a blob, whatever its bytes are, passes every check there is.
Groups have as many children as their connectives take, membership is tested in lists, and
every field is one that the target has. The built-in tables of both languages can write the
trigger, with dates in any offset, and the digest of the source is to be had.

The rule is stable: it comes back from its own blob exactly if its record takes up less than
4 GiB, the most that a header can announce. So it does without a source, and with any source
if the blob it was loaded from was shorter than that. -/
theorem ReviewRule.storable_of_ofBlob {blob : List UInt8} {rule : ReviewRule}
    (loaded : ofBlob blob = .ok rule) :
    (∀ g ∈ rule.trigger.groups, g.1.acceptsArity g.2 = true) ∧
    (∀ c ∈ rule.trigger.conditions, c.operator = .among → c.value.isList = true) ∧
    (∀ c ∈ rule.trigger.conditions, rule.target.allows c.field = true) ∧
    (∀ (offset : Offset) (mode : Mode),
      ∃ text, ({ offset } : Editor).renderRule rule.trigger mode = .ok text) ∧
    (∃ digest, Blob.sourceDigest blob = .ok digest) ∧
    (∀ source, ofBlob (rule.toBlob source) = .ok rule ↔
      (Blob.Record.ofRule rule
        (source.map fun text => Blake3.digest (Blob.utf8 text))).write.length < 0x100000000) ∧
    ∀ source, source = none ∨ blob.length < 0x100000000 →
      ofBlob (rule.toBlob source) = .ok rule := by
  have wellFormed := Blob.wellFormed_of_ofBlob loaded
  exact ⟨wellFormed.arities, wellFormed.lists, rule.compatible,
    fun offset mode => Editor.renderRule_of_wellFormed offset mode wellFormed,
    Blob.sourceDigest_of_ofBlob loaded, ofBlob_toBlob_iff wellFormed,
    fun _ => ofBlob_toBlob_of_ofBlob loaded⟩

/-- A blob with a parameter that is set twice, and with a byte after its payload. The last
value of the parameter is loaded, and comes back from the blob of the rule. -/
theorem ReviewRule.storable_of_ofBlob_repeated :
    let record : Blob.Record :=
      { conditionCount := 1, actionCount := 1, sourceDigest := none, id := 0, fid := 0,
        forumRuleId := none, target := "all", name := "", enabled := true, priority := 0,
        trigger := .condition "level" "lt" (.int 3),
        actions := [⟨"ban", [("days", .int 1), ("days", .int 2)]⟩] }
    ∃ rule, ofBlob (Blob.wrap record.write ++ [0]) = .ok rule ∧
      rule.actions = [⟨.ban, .ofList [("days", .int 2)]⟩] ∧
      ofBlob (rule.toBlob (some "level < 3")) = .ok rule := by
  intro record
  have short : record.write.length < 100 := by decide +kernel
  have small : record.write.length < 0x100000000 := Nat.lt_trans short (by decide)
  have read : Blob.Record.read? record.write = some record :=
    Blob.read?_write small (by decide) (by decide) nofun
  have found : Blob.record (Blob.wrap record.write ++ [0]) = .ok record :=
    Blob.record_eq_ok.mpr ⟨record.write, Blob.unwrap_wrap small [0], read⟩
  have actions : (match record.toRule with
      | .ok rule => decide (rule.actions = [⟨.ban, .ofList [("days", .int 2)]⟩])
      | .error _ => false) = true := by
    decide +kernel
  have length : (Blob.wrap record.write ++ [0]).length < 0x100000000 := by
    rw [List.length_append, Blob.length_wrap, Blob.headerLength, List.length_singleton]
    omega
  cases passed : record.toRule with
  | error violation =>
    rw [passed] at actions
    cases actions
  | ok rule =>
    rw [passed] at actions
    have loaded := Blob.ofBlob_eq_ok.mpr ⟨record, found, passed⟩
    exact ⟨rule, loaded, of_decide_eq_true actions,
      (storable_of_ofBlob loaded).2.2.2.2.2.2 _ (.inr length)⟩

end ForumModeration
