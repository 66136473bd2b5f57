import ForumModeration.Proofs.Editor.Reading
import ForumModeration.Proofs.Grammar.Missing

/-!
# `ForumModeration.Proofs.Editor.Diagnostics`: what diagnostics say is true

A diagnostic for the text of a rule names a trouble and a place. `Diagnostic.Truthful` says
what that means for the text before the place and for the text behind it: a field, an
operator or a value that is unknown is none, and what is unexpected comes after a rule.

`parseRule_diagnostic_truthful` says that all diagnostics for rules are truthful, with the
tables of both languages.

Two things that one might expect are not so (`diagnostic_denies`). Behind a whole rule only
the connectives that stand between operands are tried, so that `NOT` is called unexpected
there. And digits with a unit are no value if they are more than 64 bits hold.
-/

set_option autoImplicit false

namespace ForumModeration

open Text

namespace Diagnostic

/-! ### Quoted words -/

/-- A word is quoted from the start of a text: it is some of it, without white space. -/
def Quotes (word : String) (text : List Char) : Prop :=
  word.toList ≠ [] ∧ word.toList <+: text ∧ ∀ c ∈ word.toList, isBlank c = false

/-- The word at the start of a text is some of it, and all of it up to a character that ends
a word. -/
theorem wordAt_prefix (text : List Char) : wordAt text <+: text := by
  cases text with
  | nil => exact List.prefix_refl []
  | cons c rest =>
    show (if endsWord c then [c] else _) <+: _
    split
    · exact ⟨rest, rfl⟩
    · exact (List.take_prefix _ _).trans (List.takeWhile_prefix _)

theorem wordAt_eq_nil_iff {text : List Char} : wordAt text = [] ↔ text = [] := by
  cases text with
  | nil => exact ⟨fun _ => rfl, fun _ => rfl⟩
  | cons c rest =>
    refine iff_of_false ?_ (List.cons_ne_nil _ _)
    show (if endsWord c then [c] else _) ≠ _
    split
    · exact List.cons_ne_nil _ _
    · rename_i inside
      rw [List.takeWhile_cons_of_pos (by simpa using inside), maxWord, List.take_succ_cons]
      exact List.cons_ne_nil _ _

/-- Where no blank stands, a word is quoted. -/
theorem quotes_wordAt {text : List Char} (skipped : skipBlanks text = text)
    (nonempty : text ≠ []) : Quotes (String.ofList (wordAt text)) text := by
  unfold Quotes
  rw [String.toList_ofList]
  refine ⟨mt wordAt_eq_nil_iff.mp nonempty, wordAt_prefix text, ?_⟩
  have ahead := ahead_dropWhile isBlank text
  rw [show text.dropWhile isBlank = text from skipped] at ahead
  cases text with
  | nil => exact absurd rfl nonempty
  | cons c rest =>
    show ∀ d ∈ if endsWord c then [c] else _, _
    split
    · intro d mem
      rw [List.mem_singleton.mp mem]
      exact ahead_cons.mp ahead
    · intro d mem
      have inside := List.mem_takeWhile_imp (List.mem_of_mem_take mem)
      simp only [endsWord, Bool.not_eq_true', Bool.or_eq_false_iff] at inside
      exact inside.1.1

/-- The trouble with a word where one of a kind was needed. -/
def unknown : WordKind → String → Trouble
  | .field => .unknownField
  | .operator => .unknownOperator
  | .action => .unknownAction
  | .literal => .invalidLiteral

theorem troubleAt_word {rest : List Char} (nonempty : rest ≠ []) (kind : WordKind) :
    troubleAt rest (some (.word kind)) = unknown kind (String.ofList (wordAt rest)) := by
  obtain ⟨c, word, spelled⟩ := List.exists_cons_of_ne_nil (mt wordAt_eq_nil_iff.mp nonempty)
  rw [troubleAt, spelled]
  cases kind <;> rfl

theorem troubleAt_none {rest : List Char} (nonempty : rest ≠ []) :
    troubleAt rest none = .unexpected (String.ofList (wordAt rest)) := by
  obtain ⟨c, word, spelled⟩ := List.exists_cons_of_ne_nil (mt wordAt_eq_nil_iff.mp nonempty)
  rw [troubleAt, spelled]

/-! ### What is true of a text -/

/-- What a diagnostic says of a text, by its trouble: of the text up to the place and of the
text from there on. `accepted` says which texts are rules by themselves. -/
def Truthful (table : TokenTable) (accepted : List Char → Prop) (text : List Char)
    (d : Diagnostic) : Prop :=
  let before := text.take d.offset
  let after := text.drop d.offset
  match d.trouble with
  | .unknownField word => Quotes word after ∧ table.Missing before after .field
  | .unknownOperator word => Quotes word after ∧ table.Missing before after .operator
  | .invalidLiteral word => Quotes word after ∧ table.Missing before after .literal
  | .unexpected word => Quotes word after ∧ accepted before ∧
      ∀ c : Connective, c.isUnary = false → ¬table.Stands (.connective c) after
  | .unexpectedEnd => d.offset = text.length
  | .unknownAction _ => False
  | .expected _ => True

variable {table : TokenTable} {accepted : List Char → Prop} {stage : Stage}
  {text before : List Char} {failure : Failure}

/-- The place of a failure divides the text. -/
private theorem offset_ofFailure (stage : Stage) (split : text = before ++ failure.rest) :
    text.take (ofFailure stage text failure).offset = before ∧
      text.drop (ofFailure stage text failure).offset = failure.rest := by
  have length : (ofFailure stage text failure).offset = before.length := by
    show text.length - failure.rest.length = _
    rw [split, List.length_append, Nat.add_sub_cancel]
  rw [length, split]
  exact ⟨List.take_left, List.drop_left⟩

/-- At the end of a text, a word that is missing is not named. -/
theorem truthful_of_end {expected : Option Expectation} {final : Bool}
    (word : ∀ what, expected ≠ some (.requirement what)) :
    (ofFailure stage text ⟨[], expected, final⟩).Truthful table accepted text := by
  have trouble : (ofFailure stage text ⟨[], expected, final⟩).trouble = .unexpectedEnd := by
    show troubleAt [] expected = _
    rcases expected with _ | (_ | what)
    · rfl
    · rfl
    · exact absurd rfl (word what)
  unfold Truthful
  rw [trouble]
  exact Nat.sub_zero _

/-- What a failure says candidly makes a truthful diagnostic. -/
theorem truthful_of_candid (candid : table.Candid text failure) :
    (ofFailure stage text failure).Truthful table accepted text := by
  obtain ⟨rest, expected, final⟩ := failure
  rcases expected with _ | (kind | what)
  · exact candid.elim
  · obtain ⟨before, split, skipped, missing⟩ := candid
    by_cases nonempty : rest = []
    · rw [nonempty]
      exact truthful_of_end fun _ => nofun
    · have trouble : (ofFailure stage text ⟨rest, some (.word kind), final⟩).trouble
          = unknown kind (String.ofList (wordAt rest)) := troubleAt_word nonempty kind
      have quotes := quotes_wordAt skipped nonempty
      obtain ⟨htake, hdrop⟩ := offset_ofFailure stage split
      unfold Truthful
      rw [htake, hdrop, trouble]
      cases kind with
      | field => exact ⟨quotes, missing⟩
      | operator => exact ⟨quotes, missing⟩
      | literal => exact ⟨quotes, missing⟩
      | action => exact missing
  · trivial

/-- What is left behind a rule makes a truthful diagnostic. -/
theorem truthful_of_leftover {rest : List Char} (split : text = before ++ rest)
    (skipped : skipBlanks rest = rest) (accepts : accepted before)
    (nothing : ∀ c : Connective, c.isUnary = false → ¬table.Stands (.connective c) rest) :
    (ofFailure stage text ⟨rest, none, false⟩).Truthful table accepted text := by
  by_cases nonempty : rest = []
  · rw [nonempty]
    exact truthful_of_end fun _ => nofun
  · have trouble : (ofFailure stage text ⟨rest, none, false⟩).trouble
        = .unexpected (String.ofList (wordAt rest)) := troubleAt_none nonempty
    obtain ⟨htake, hdrop⟩ : text.take (ofFailure stage text ⟨rest, none, false⟩).offset = before ∧
        text.drop (ofFailure stage text ⟨rest, none, false⟩).offset = rest :=
      offset_ofFailure stage split
    unfold Truthful
    rw [htake, hdrop, trouble]
    exact ⟨quotes_wordAt skipped nonempty, accepts, nothing⟩

end Diagnostic

namespace Editor

/-- With the tables of both languages and dates in any offset, what a diagnostic for the text
of a rule says is true. A text is accepted if it is read as a rule at the same instant. -/
theorem parseRule_diagnostic_truthful (offset : Offset) (clock : Clock) (text : String)
    (mode : Mode) {d : Diagnostic}
    (rejected : ((({ offset } : Editor).parseRule text mode).run clock).1 = .error d) :
    d.Truthful (({ offset } : Editor).table mode)
      (fun before => ∃ trigger, ((({ offset } : Editor).parseRule (String.ofList before) mode).run
        clock).1 = .ok trigger) text.toList := by
  obtain ⟨failure, failed, rfl⟩ := parseRule_eq_error_iff.mp rejected
  have legible := legible_table offset mode
  unfold Parser.complete at failed
  split at failed
  · cases failed
  · rename_i trigger rest more read
    cases failed
    obtain ⟨mid, htiers, rfl⟩ := Grammar.rule_eq_ok.mp read
    obtain ⟨before, split⟩ := (Grammar.rule_cuts rfl read).suffix
    refine Diagnostic.truthful_of_leftover split.symm (skipBlanks_skipBlanks mid) ⟨trigger, ?_⟩ ?_
    · rw [← split] at read
      have whole := Grammar.rule_of_span legible (contained_table offset mode)
        (g := ({ offset } : Editor).grammar mode (clock.readings 0)) rfl read
      rw [parseRule_eq_ok_iff, String.toList_ofList]
      exact whole
    · intro c binary stands
      exact Grammar.tiers_leave rfl legible rfl (Grammar.operand_cuts rfl _) htiers binary
        stands.unskipped
  · rename_i failed'
    cases failed
    exact Diagnostic.truthful_of_candid (Grammar.candid_of_rule rfl legible failed')

/-- A closing parenthesis behind a rule. -/
theorem parseRule_diagnostic_truthful_leftover :
    let text := "floor > 1 OR NOT floor > 2 ) title"
    let clock : Clock := .fixed ⟨0, 0, .utc, by decide⟩
    ∃ d, ((({} : Editor).parseRule text .dsl).run clock).1 = .error d ∧
      d.trouble = .unexpected ")" ∧ d.offset = 27 ∧
      d.Truthful (({} : Editor).table .dsl)
        (fun before => ∃ trigger, ((({} : Editor).parseRule (String.ofList before) .dsl).run
          clock).1 = .ok trigger) text.toList := by
  have rejected : ((({} : Editor).parseRule "floor > 1 OR NOT floor > 2 ) title" .dsl).run
      (.fixed ⟨0, 0, .utc, by decide⟩)).1 = .error (Diagnostic.ofFailure .rule
        "floor > 1 OR NOT floor > 2 ) title".toList ⟨") title".toList, none, false⟩) :=
    parseRule_eq_error_iff.mpr ⟨_, by decide +kernel, rfl⟩
  exact ⟨_, rejected, by decide +kernel, by decide +kernel,
    parseRule_diagnostic_truthful _ _ _ .dsl rejected⟩

/-- Tokens and literals that stand where they are said to be missing: `NOT` behind a rule, and
an amount of a unit that takes more than 64 bits. -/
theorem diagnostic_denies :
    let clock : Clock := .fixed ⟨0, 0, .utc, by decide⟩
    (∃ d, ((({} : Editor).parseRule "floor > 1 NOT floor > 2" .dsl).run clock).1 = .error d ∧
      d.trouble = .unexpected "NOT" ∧ d.offset = 10 ∧
      TokenTable.dsl.Stands (.connective .not) ("floor > 1 NOT floor > 2".toList.drop 10)) ∧
    ∃ d, ((({} : Editor).parseRule "floor > 99999999999999999999d" .dsl).run clock).1 = .error d ∧
      d.trouble = .invalidLiteral "99999999999999999999d" ∧ d.offset = 8 ∧
      ∃ run after, "floor > 99999999999999999999d".toList.drop 8 = run ++ after ∧ Digits run ∧
        TokenTable.dsl.Stands (.unit .day) after := by
  have unexpected : ((({} : Editor).parseRule "floor > 1 NOT floor > 2" .dsl).run
      (.fixed ⟨0, 0, .utc, by decide⟩)).1 = .error (Diagnostic.ofFailure .rule
        "floor > 1 NOT floor > 2".toList ⟨"NOT floor > 2".toList, none, false⟩) :=
    parseRule_eq_error_iff.mpr ⟨_, by decide +kernel, rfl⟩
  have invalid : ((({} : Editor).parseRule "floor > 99999999999999999999d" .dsl).run
      (.fixed ⟨0, 0, .utc, by decide⟩)).1 = .error (Diagnostic.ofFailure .rule
        "floor > 99999999999999999999d".toList
        ⟨"99999999999999999999d".toList, some (.word .literal), true⟩) :=
    parseRule_eq_error_iff.mpr ⟨_, by decide +kernel, rfl⟩
  have not_ : TokenTable.dsl.Stands (.connective .not)
      ("NOT".toList ++ ' ' :: "floor > 2".toList) :=
    ⟨_, @TokenTable.Token.of_spelling _ _ _ "NOT".toList "NOT".toList (by decide) (by decide) rfl
      fun _ => ahead_cons.mpr (by decide)⟩
  have unit_ : TokenTable.dsl.Stands (.unit .day) ['d'] :=
    ⟨[], @TokenTable.Token.of_spelling _ _ _ ['d'] ['d'] (by decide) (by decide) rfl
      fun _ => ahead_nil _⟩
  have digits : Digits (List.replicate 20 '9') :=
    ⟨by decide, fun c mem => by rw [List.eq_of_mem_replicate mem]; decide⟩
  have behind : "floor > 1 NOT floor > 2".toList.drop 10
      = "NOT".toList ++ ' ' :: "floor > 2".toList := by decide +kernel
  rw [behind]
  exact ⟨⟨_, unexpected, by decide +kernel, by decide +kernel, not_⟩, _, invalid, by decide +kernel,
    by decide +kernel, _, _, by decide +kernel, digits, unit_⟩

end Editor

end ForumModeration
