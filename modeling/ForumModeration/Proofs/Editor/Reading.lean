import ForumModeration.Editor
import ForumModeration.Proofs.Grammar.Contexts

/-!
# `ForumModeration.Proofs.Editor.Reading`: rules are read by the grammar

An editor reads a rule through a search: alternatives are tried in order, tokens by
longest match, and some choices are final. `parseRule_agrees_with_grammar` says that
none of this shows. A rule that is read, in either language, is a phrase of the
grammar (`RulePhrase`) with the same meaning; and in the compact language every phrase
that nests no deeper than the reader may go is read with its meaning.
-/

set_option autoImplicit false

namespace ForumModeration.Editor

open Text

/-- What is read is what a parser reads up to the end of the text. -/
theorem readWith_eq_ok_iff {α : Type} {stage : Stage} {parser : Parser α} {text : String}
    {a : α} : readWith stage parser text = .ok a ↔ parser.complete text.toList = .ok a := by
  unfold readWith
  cases parser.complete text.toList with
  | error failure => exact ⟨nofun, nofun⟩
  | ok read =>
    rw [Except.ok.injEq]
    exact ⟨Except.ok.inj, congrArg Except.ok⟩

/-- What is said of a text that cannot be read is made from the failure to read it. -/
theorem readWith_eq_error_iff {α : Type} {stage : Stage} {parser : Parser α} {text : String}
    {d : Diagnostic} :
    readWith stage parser text = .error d ↔
      ∃ failure, parser.complete text.toList = .error failure ∧
        Diagnostic.ofFailure stage text.toList failure = d := by
  unfold readWith
  cases parser.complete text.toList with
  | ok a => exact ⟨nofun, nofun⟩
  | error failure =>
    constructor
    · intro same
      exact ⟨failure, rfl, Except.error.inj same⟩
    · rintro ⟨_, same, rfl⟩
      cases same
      rfl

/-- What parsing says of a text, at the first reading of a clock. -/
theorem parseRule_eq_ok_iff {editor : Editor} {clock : Clock} {text : String} {mode : Mode}
    {trigger : Trigger} :
    ((editor.parseRule text mode).run clock).1 = .ok trigger ↔
      (editor.grammar mode (clock.readings 0)).rule.complete text.toList = .ok trigger :=
  show editor.parseRuleAt (clock.readings 0) text mode = _ ↔ _ from readWith_eq_ok_iff

/-- A diagnostic for the text of a rule is made from the failure to read it. -/
theorem parseRule_eq_error_iff {editor : Editor} {clock : Clock} {text : String} {mode : Mode}
    {d : Diagnostic} :
    ((editor.parseRule text mode).run clock).1 = .error d ↔
      ∃ failure, (editor.grammar mode (clock.readings 0)).rule.complete text.toList
          = .error failure ∧
        Diagnostic.ofFailure .rule text.toList failure = d :=
  show editor.parseRuleAt (clock.readings 0) text mode = _ ↔ _ from readWith_eq_error_iff

/-- A diagnostic for the text of an action list is made in the same way. -/
theorem parseActions_eq_error_iff {editor : Editor} {clock : Clock} {text : String} {mode : Mode}
    {d : Diagnostic} :
    ((editor.parseActions text mode).run clock).1 = .error d ↔
      ∃ failure, (editor.grammar mode (clock.readings 0)).calls.complete text.toList
          = .error failure ∧
        Diagnostic.ofFailure .action text.toList failure = d :=
  show editor.parseActionsAt (clock.readings 0) text mode = _ ↔ _ from readWith_eq_error_iff

/-- What parsing says of a text that is refused for nesting too deep. -/
theorem parseRule_of_tooDeep {editor : Editor} {clock : Clock} {text : String} {mode : Mode}
    {stop : List Char}
    (h : (editor.grammar mode (clock.readings 0)).rule.complete text.toList
      = .error ⟨stop, some (.requirement .shallowerNesting), true⟩) :
    ∃ d, ((editor.parseRule text mode).run clock).1 = .error d ∧
      d.trouble = .expected "shallower nesting" :=
  ⟨_, parseRule_eq_error_iff.mpr ⟨_, h, rfl⟩, rfl⟩

/-- The tables of both languages can be read. -/
theorem legible_table (offset : Offset) (mode : Mode) :
    (({ offset } : Editor).table mode).Legible := by
  cases mode
  · exact TokenTable.legible_dsl
  · exact TokenTable.legible_cnl

theorem contained_table (offset : Offset) (mode : Mode) :
    (({ offset } : Editor).table mode).Contained := by
  cases mode
  · exact TokenTable.contained_dsl
  · exact TokenTable.contained_cnl

/-- The tables of both languages can be written. -/
theorem writable_table (offset : Offset) (mode : Mode) :
    (({ offset } : Editor).table mode).Writable := by
  cases mode
  · exact TokenTable.writable_dsl
  · exact TokenTable.writable_cnl

/-- With the tables of both languages and dates in any offset: what is read is a phrase
of the grammar, nested at most 128 deep, and its meaning is what is read. In the
compact language all such phrases are read. -/
theorem parseRule_agrees_with_grammar (offset : Offset) (clock : Clock) (text : String) :
    (∀ (mode : Mode) (trigger : Trigger),
      ((({ offset } : Editor).parseRule text mode).run clock).1 = .ok trigger →
        RulePhrase (({ offset } : Editor).table mode) ((clock.readings 0).withOffset offset)
          128 text.toList trigger) ∧
    (∀ (trigger : Trigger) (depth : Nat), depth ≤ 128 →
      RulePhrase .dsl ((clock.readings 0).withOffset offset) depth text.toList trigger →
        ((({ offset } : Editor).parseRule text .dsl).run clock).1 = .ok trigger) := by
  constructor
  · intro mode trigger read
    exact Grammar.rulePhrase_of_rule (parseRule_eq_ok_iff.mp read)
  · intro trigger depth bounded phrase
    exact parseRule_eq_ok_iff.mpr (Grammar.rule_of_rulePhrase phrase bounded)

/-! ### Negations -/

/-- A text of `n` negations of one condition, with a space in front of each word. -/
def negations (n : Nat) : List Char :=
  (List.replicate n " NOT".toList).flatten ++ " floor > 1".toList

/-- Each negation takes up one level of nesting. -/
theorem rulePhrase_negations (now : Instant) (n : Nat) :
    RulePhrase .dsl now n (negations n)
      (Trigger.negate^[n] (.condition ⟨.floor, .gt, .int 1⟩)) := by
  have field : TokenTable.dsl.Token (.field .floor) " floor > 1".toList " > 1".toList :=
    @TokenTable.Token.spaced _ _ _ "floor".toList (by decide) (by decide)
      fun _ => ahead_cons.mpr (by decide)
  have operator : TokenTable.dsl.Token (.operator .gt) " > 1".toList [' ', '1'] :=
    @TokenTable.Token.spaced _ _ _ ['>'] (by decide) (by decide)
      fun ends => absurd ends (by decide)
  have number : NumberText ['1'] (.int 1) :=
    @NumberText.int false ['1'] _ ⟨by simp, by simp⟩ rfl (by decide)
  have value : ScalarPhrase .dsl now false [' ', '1'] (.int 1) [] :=
    ⟨[' '], ['1'], rfl, isBlank_of_mem_space, .number number (ahead_nil _)⟩
  -- One more negation takes one more level.
  have phrase : OperandPhrase .dsl now n (negations n)
      (Trigger.negate^[n] (.condition ⟨.floor, .gt, .int 1⟩)) [] := by
    induction n with
    | zero =>
      exact ConditionPhrase.mk field operator (show ValuePhrase _ _ _ 0 _ _ _ from value)
        (fun among => absurd among (by decide))
    | succ n ih =>
      obtain ⟨more, same⟩ : ∃ more, negations n = ' ' :: more := by
        cases n <;> exact ⟨_, rfl⟩
      have not_ : TokenTable.dsl.Token (.connective .not) (negations (n + 1)) (negations n) := by
        unfold negations at same ⊢
        rw [List.replicate_succ, List.flatten_cons, List.append_assoc, same]
        exact @TokenTable.Token.spaced _ _ _ "NOT".toList (by decide) (by decide)
          fun _ => ahead_cons.mpr (by decide)
      rw [Function.iterate_succ_apply']
      exact .inr (.inl (.mk not_ ih))
  exact ⟨[], .single (.single phrase), by simp⟩

/-- At the start of 1970, one negation has a derivation, so it is read, and what is read
has a derivation again. -/
theorem parseRule_agrees_with_grammar_negation :
    (((({} : Editor).parseRule (String.ofList (negations 1)) .dsl).run
        (.fixed ⟨0, 0, .utc, by decide⟩)).1
        = .ok (.group .not [.condition ⟨.floor, .gt, .int 1⟩])) ∧
      RulePhrase .dsl ⟨0, 0, .china, by decide⟩ 128 (negations 1)
        (.group .not [.condition ⟨.floor, .gt, .int 1⟩]) := by
  have exact := parseRule_agrees_with_grammar .china (.fixed ⟨0, 0, .utc, by decide⟩)
    (String.ofList (negations 1))
  rw [String.toList_ofList] at exact
  have read := exact.2 _ 1 (by decide) (rulePhrase_negations _ 1)
  exact ⟨read, exact.1 .dsl _ read⟩

end ForumModeration.Editor
