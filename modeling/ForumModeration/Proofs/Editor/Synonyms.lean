import ForumModeration.Proofs.Editor.Calls
import ForumModeration.Proofs.Grammar.Synonyms
import ForumModeration.Proofs.Rendering.Primary

/-!
# `ForumModeration.Proofs.Editor.Synonyms`: synonyms leave texts their meaning

A table may be given synonyms, and texts that were read before keep their meaning
(`synonym_conservative`). For most symbols it is enough that no token starts as the synonym
does. If the synonym is a unit of time, it may be read behind digits, so no token may have it
there. If it begins a literal, it may be read behind a comma, so no closing bracket may be
spelled as a comma and what the synonym starts with, nor as a part of a comma.
`synonym_misread` has a text for each of these cases.
-/

set_option autoImplicit false

namespace ForumModeration.Editor

open Text

/-- Two editors differ in a synonym that one of them has in addition. It starts with a fresh
character, and no token has that behind its digits if the synonym may be read there. Then

- rules that the first one reads are read alike by the second one, if the synonym begins no
  literal or commas and closing brackets are separable,
- action lists that the first one reads are read alike by the second one, and
- if the first entry of the symbol has a token, both write all rules and action lists alike. -/
theorem synonym_conservative (editor editor' : Editor) (mode : Mode) (symbol : Symbol)
    (token : String) {first : Char} {tail : List Char} (spelled : token.toList = first :: tail)
    (fresh : (editor.table mode).Fresh first)
    (afterDigits : symbol.followsDigits first = true →
      (editor.table mode).FreshAfterDigits first)
    (synonym : editor'.table mode = (editor.table mode).withSynonym symbol token)
    (offset : editor'.offset = editor.offset) :
    ((symbol.beginsLiteral = true → (editor.table mode).Separable symbol first) →
      ∀ (clock : Clock) (text : String) (trigger : Trigger),
        ((editor.parseRule text mode).run clock).1 = .ok trigger →
          ((editor'.parseRule text mode).run clock).1 = .ok trigger) ∧
    (∀ (clock : Clock) (text : String) (actions : List Action),
      ((editor.parseActions text mode).run clock).1 = .ok actions →
        ((editor'.parseActions text mode).run clock).1 = .ok actions) ∧
    ((∃ tokens, (editor.table mode).alternatives symbol = .ok tokens ∧ tokens ≠ []) →
      (∀ trigger, editor'.renderRule trigger mode = editor.renderRule trigger mode) ∧
      ∀ actions, editor'.renderActions actions mode = editor.renderActions actions mode) := by
  have widens : ∀ clock : Clock, Grammar.Widens (editor.table mode) symbol first
      (editor.grammar mode (clock.readings 0)) (editor'.grammar mode (clock.readings 0)) := by
    intro clock
    unfold grammar
    rw [synonym, offset]
    exact Grammar.widens_withSynonym fresh afterDigits spelled _
  refine ⟨?_, ?_, ?_⟩
  · intro separable clock text trigger read
    rw [parseRule_eq_ok_iff] at read ⊢
    exact (widens clock).complete_rule separable read
  · intro clock text actions read
    rw [parseActions_eq_ok_iff] at read ⊢
    exact (widens clock).complete_calls read
  · rintro ⟨tokens, listed, nonempty⟩
    have agree : Renderer.Agree (editor.renderer mode) (editor'.renderer mode) := by
      unfold renderer
      rw [synonym, offset]
      exact Renderer.agree_withSynonym editor.offset listed nonempty
    constructor
    · intro trigger
      unfold renderRule
      rw [agree.rule]
    · intro actions
      unfold renderActions
      rw [agree.actions]

/-- The word for a day, where the compact language has only a letter. -/
theorem synonym_conservative_day :
    ((({ dsl := .withSynonym .dsl (.unit .day) "_day" } : Editor).parseRule "floor in [1, 2]"
        .dsl).run (.fixed ⟨0, 0, .utc, by decide⟩)).1
      = .ok (.condition ⟨.floor, .among, .list [.int 1, .int 2]⟩) ∧
    ((({ dsl := .withSynonym .dsl (.unit .day) "_day" } : Editor).parseActions "DO: ban(days=3)"
        .dsl).run (.fixed ⟨0, 0, .utc, by decide⟩)).1
      = .ok [⟨.ban, .ofList [("days", .int 3)]⟩] ∧
    ({ dsl := .withSynonym .dsl (.unit .day) "_day" } : Editor).renderRule
        (.condition ⟨.floor, .gt, .int 1⟩) .dsl
      = ({} : Editor).renderRule (.condition ⟨.floor, .gt, .int 1⟩) .dsl := by
  have fresh : TokenTable.dsl.Fresh '_' := ⟨by decide, by decide, by decide +kernel⟩
  have afterDigits : TokenTable.dsl.FreshAfterDigits '_' := by
    unfold TokenTable.FreshAfterDigits
    decide +kernel
  have apart : ∀ comma ∈ TokenTable.dsl.lexicon, comma.2 = .punctuation .comma →
      ∀ closing ∈ TokenTable.dsl.lexicon, closing.2 = .punctuation .rightBracket →
        TokenTable.apart comma.1 closing.1 = true := by
    decide +kernel
  have separable : TokenTable.dsl.Separable (.unit .day) '_' :=
    fun comma mem isComma closing mem' isClosing =>
      .inl (apart comma mem isComma closing mem' isClosing)
  obtain ⟨rules, actions, written⟩ := synonym_conservative {}
    { dsl := .withSynonym .dsl (.unit .day) "_day" } .dsl (.unit .day) "_day"
    (show _ = '_' :: ['d', 'a', 'y'] by decide) fresh (fun _ => afterDigits) rfl rfl
  refine ⟨rules (fun _ => separable) _ _ _ (parseRule_eq_ok_iff.mpr (by decide +kernel)),
    actions _ _ _ (parseActions_eq_ok_iff.mpr (by decide +kernel)),
    (written ⟨["d"], by decide, by decide⟩).1 _⟩

/-- The compact language with a bracket that is spelled as a comma and one more character. -/
def longBracket : TokenTable :=
  .withSynonym .dsl (.punctuation .rightBracket) ",@"

/-- The compact language with a comma that is spelled as two brackets, of which the second
and one more character spell a parenthesis. -/
def longComma : TokenTable :=
  .withSynonym (.withSynonym (.withSynonym .dsl (.punctuation .comma) ",,")
    (.punctuation .rightBracket) ",") (.punctuation .rightParen) ",@"

/-- The compact language with a truth value that is spelled as a digit and one more
character. -/
def digitTruth : TokenTable :=
  .withSynonym .dsl (.truth true) "1q"

/-- Synonyms that no token starts like, and texts that are not read any more or read otherwise
because of them: `@` for the present can stand behind a comma, and `q` for a day behind a digit. -/
theorem synonym_misread :
    ((∀ entry ∈ longBracket.lexicon, entry.1.head?.all (fun c => c.toLower ≠ '@') = true) ∧
      ((({ dsl := longBracket } : Editor).parseRule "floor in [1,@" .dsl).run
          (.fixed ⟨0, 0, .utc, by decide⟩)).1
        = .ok (.condition ⟨.floor, .among, .list [.int 1]⟩) ∧
      ∀ trigger, ((({ dsl := longBracket.withSynonym .now "@" } : Editor).parseRule
          "floor in [1,@" .dsl).run (.fixed ⟨0, 0, .utc, by decide⟩)).1 ≠ .ok trigger) ∧
    ((∀ entry ∈ longComma.lexicon, entry.1.head?.all (fun c => c.toLower ≠ '@') = true) ∧
      ((({ dsl := longComma } : Editor).parseRule "(floor in [1,,@" .dsl).run
          (.fixed ⟨0, 0, .utc, by decide⟩)).1
        = .ok (.condition ⟨.floor, .among, .list [.int 1]⟩) ∧
      ∀ trigger, ((({ dsl := longComma.withSynonym .now "@" } : Editor).parseRule
          "(floor in [1,,@" .dsl).run (.fixed ⟨0, 0, .utc, by decide⟩)).1 ≠ .ok trigger) ∧
    ((∀ entry ∈ digitTruth.lexicon, entry.1.head?.all (fun c => c.toLower ≠ 'q') = true) ∧
      ((({ dsl := digitTruth } : Editor).parseRule "is_top = 1q" .dsl).run
          (.fixed ⟨0, 0, .utc, by decide⟩)).1
        = .ok (.condition ⟨.isTop, .eq, .bool true⟩) ∧
      ((({ dsl := digitTruth.withSynonym (.unit .day) "q" } : Editor).parseRule "is_top = 1q"
          .dsl).run (.fixed ⟨0, 0, .utc, by decide⟩)).1
        ≠ .ok (.condition ⟨.isTop, .eq, .bool true⟩)) := by
  have refused : ∀ {editor : Editor} {text : String} {failure : Failure} (trigger : Trigger),
      (editor.grammar .dsl ⟨0, 0, .utc, by decide⟩).rule.complete text.toList = .error failure →
      ((editor.parseRule text .dsl).run (.fixed ⟨0, 0, .utc, by decide⟩)).1 ≠ .ok trigger := by
    intro editor text failure trigger failed read
    have read := parseRule_eq_ok_iff.mp read
    rw [show (Clock.fixed ⟨0, 0, .utc, by decide⟩).readings 0 = ⟨0, 0, .utc, by decide⟩ from rfl,
      failed] at read
    cases read
  refine ⟨⟨by decide +kernel, parseRule_eq_ok_iff.mpr (by decide +kernel), fun trigger => ?_⟩,
    ⟨by decide +kernel, parseRule_eq_ok_iff.mpr (by decide +kernel), fun trigger => ?_⟩,
    by decide +kernel, parseRule_eq_ok_iff.mpr (by decide +kernel), ?_⟩
  · have failed : (({ dsl := longBracket.withSynonym .now "@" } : Editor).grammar .dsl
        ⟨0, 0, .utc, by decide⟩).rule.complete "floor in [1,@".toList
          = .error ⟨[], some (.requirement .closingBracket), true⟩ := by
      decide +kernel
    exact refused trigger failed
  · have failed : (({ dsl := longComma.withSynonym .now "@" } : Editor).grammar .dsl
        ⟨0, 0, .utc, by decide⟩).rule.complete "(floor in [1,,@".toList
          = .error ⟨[], some (.requirement .closingBracket), true⟩ := by
      decide +kernel
    exact refused trigger failed
  · rw [Ne, parseRule_eq_ok_iff]
    decide +kernel

end ForumModeration.Editor
