import ForumModeration.Proofs.Editor.Reading
import ForumModeration.Proofs.Grammar.Prose
import ForumModeration.Proofs.Grammar.Words
import ForumModeration.Proofs.Scanner

/-!
# `ForumModeration.Proofs.Editor.Scanning`: rules in prose and rules alone

A scanner reads leniently and reads on behind the rules it finds, so it could find a rule
where nobody wrote one. `scanner_sound` says that it does not: with the tables of both
languages, what it finds is what a reader of rules reads when it is given the span alone.

`scanner_of_parseRule` is the converse for a text that is one rule, with any tables: the
scanner finds that rule and nothing else. `scanner_before_prose` finds it also where a
connective and prose come behind it.

With any tables, a scanner may be called as often as one likes (`scanner_ends`), and the rules
it finds start and end between words (`scanner_cutsWord_iff`), but for dates: the letter in
`2023-01-01x` is left (`scanner_cuts_dated_word`).
-/

set_option autoImplicit false

namespace ForumModeration.Editor

open Text

/-- With the tables of both languages and dates in any offset: each rule that a scanner
finds in a text takes up a span of it, and this span alone is read as the rule. The span
does not start with a blank or within a word, the scanner has gone over it when it shows
the rule, and the spans come one after the other. -/
theorem scanner_sound (offset : Offset) (clock : Clock) (text : String) (mode : Mode) :
    let editor : Editor := { offset }
    let scanner := ((editor.scanner text mode).run clock).1
    let rules := (scanner.run none).1
    (∀ found ∈ rules, ∃ before span after, found.Stands text.toList before span after ∧
      ((editor.parseRule (String.ofList span) mode).run clock).1 = .ok found.trigger) ∧
    rules.Pairwise (·.stop ≤ ·.start) ∧
    ∀ (n : Nat) (found : Found), rules[n]? = some found →
      (scanner.run (some (n + 1))).1 = rules.take (n + 1) ∧
        (scanner.run (some (n + 1))).2.position = found.stop := by
  intro editor scanner rules
  have hg : scanner.grammar.lexicon = (editor.table mode).lexicon := rfl
  have start : scanner.Passed text.toList [] := Scanner.passed_ofText _ _
  obtain ⟨read, apart⟩ := start.run hg
  refine ⟨?_, apart, ?_⟩
  · intro found mem
    obtain ⟨-, before, span, after, stands, read⟩ := read found mem
    refine ⟨before, span, after, stands, ?_⟩
    rw [parseRule_eq_ok_iff, String.toList_ofList]
    exact Grammar.rule_of_span (legible_table offset mode) (contained_table offset mode) hg read
  · intro n found nth
    exact ⟨scanner.run_some_eq_take (n + 1), start.position_run hg nth⟩

/-- In a sentence with two conditions, the second one is read alone, without the connective
behind it, and the scanner stands behind the first one when it has shown it. -/
theorem scanner_sound_sentence :
    let text := "Hide level < 3, and title contains 'ad' and so on"
    let clock := Clock.fixed ⟨0, 0, .utc, by decide⟩
    (∃ before span after,
      (⟨.condition ⟨.title, .contains, .string "ad"⟩, 20, 40⟩ : Found).Stands text.toList before
          span after ∧
        ((({} : Editor).parseRule (String.ofList span) .dsl).run clock).1
          = .ok (.condition ⟨.title, .contains, .string "ad"⟩)) ∧
      (((({} : Editor).scanner text .dsl).run clock).1.run (some 1)).2.position = 14 := by
  intro text clock
  have sound := scanner_sound .china clock text .dsl
  constructor
  · exact sound.1 ⟨.condition ⟨.title, .contains, .string "ad"⟩, 20, 40⟩ (by decide +kernel)
  · exact (sound.2.2 0 ⟨.condition ⟨.level, .lt, .int 3⟩, 5, 14⟩ (by decide +kernel)).2

/-- With any tables and dates in any offset: where a text is read as a rule, a scanner of
the text finds just this rule. It has then gone over the whole text, and finds no more. -/
theorem scanner_of_parseRule (editor : Editor) (clock : Clock) (text : String) (mode : Mode)
    {trigger : Trigger} (read : ((editor.parseRule text mode).run clock).1 = .ok trigger) :
    let scanner := ((editor.scanner text mode).run clock).1
    ∃ start after, scanner.next = (some ⟨trigger, start, text.utf8ByteSize⟩, after) ∧
      after.position = text.utf8ByteSize ∧ after.next = (none, after) ∧
      scanner.run none = ([⟨trigger, start, text.utf8ByteSize⟩], after) := by
  intro scanner
  have whole := Parser.complete_eq_ok.mp (parseRule_eq_ok_iff.mp read)
  have hg : (editor.grammar mode (clock.readings 0)).lexicon = (editor.table mode).lexicon := rfl
  obtain ⟨start, after, step, rest, position⟩ :
      ∃ start after, scanner.next = (some ⟨trigger, start, utf8Length text.toList⟩, after) ∧
        after.rest = [] ∧ after.position = utf8Length text.toList :=
    Scanner.next_of_rule hg rfl whole
  rw [utf8Length_toList] at step position
  have stop := Scanner.next_nil rest
  refine ⟨start, after, step, position, stop, ?_⟩
  rw [Scanner.run_of_some none nofun step]
  show (_ :: (after.run none).1, (after.run none).2) = _
  rw [Scanner.run_of_none none nofun stop]

/-- A condition between blanks is found with the blanks behind it. -/
theorem scanner_of_parseRule_condition :
    ∃ start after, (((({} : Editor).scanner "  level < 3 " .dsl).run
      (.fixed ⟨0, 0, .utc, by decide⟩)).1.run none)
        = ([⟨.condition ⟨.level, .lt, .int 3⟩, start, 12⟩], after) := by
  obtain ⟨start, after, -, -, -, run⟩ :=
    @scanner_of_parseRule {} (.fixed ⟨0, 0, .utc, by decide⟩) "  level < 3 " .dsl
      (.condition ⟨.level, .lt, .int 3⟩) (parseRule_eq_ok_iff.mpr (by decide +kernel))
  exact ⟨start, after, run⟩

/-- With any tables and dates in any offset: a scanner may be called as often as one likes.
Each call goes over some characters, at most all that are left, and then the text is over or
a rule is read. All places that it comes to are between characters of the text. The first
calls show rules, no more of them than the text has characters, and each of these calls moves
the scanner on. All other calls show nothing and leave the scanner at the end of the text. -/
theorem scanner_ends (editor : Editor) (clock : Clock) (text : String) (mode : Mode) :
    let scanner := ((editor.scanner text mode).run clock).1
    let count := (scanner.run none).1.length
    count ≤ text.length ∧ ∀ n : Nat,
      (∃ k ≤ (scanner.called n).rest.length, ∃ last, Scanner.Skips k (scanner.called n) last ∧
        last.Stops (scanner.called n).next) ∧
      (∀ (k : Nat) (last : Scanner), Scanner.Skips k (scanner.called n) last →
        (⟨last.position⟩ : String.Pos.Raw).IsValid text ∧ last.position ≤ text.utf8ByteSize) ∧
      ((scanner.called n).next.1.isSome = true ↔ n < count) ∧
      (n < count → (scanner.called n).position < (scanner.called (n + 1)).position) ∧
      (count ≤ n → (scanner.called (n + 1)).position = text.utf8ByteSize) := by
  intro scanner count
  have hg : scanner.grammar.lexicon = (editor.table mode).lexicon := rfl
  have start : scanner.Passed text.toList [] := Scanner.passed_ofText _ _
  refine ⟨?_, ?_⟩
  · rw [← String.length_toList]
    exact scanner.length_run_le
  intro n
  obtain ⟨⟨passed, here⟩, same⟩ := start.exists_called hg n
  have hg' : (scanner.called n).grammar.lexicon = (editor.table mode).lexicon := by rw [same, hg]
  have shown : (scanner.called n).next.1 = (scanner.run none).1[n]? := start.next_called hg n
  obtain ⟨k, last, skips, stops⟩ := Scanner.exists_stop hg'
  refine ⟨⟨k, ?_, last, skips, stops⟩, ?_, ?_, ?_, ?_⟩
  · exact skips.length ▸ Nat.le_add_right _ _
  · intro k last skips
    obtain ⟨skipped, there⟩ := skips.exists_passed here
    exact there.isValid
  · rw [shown, isSome_getElem?]
  · intro more
    obtain ⟨passed, here, skipped, span, stands, there, -⟩ :=
      start.finds_called hg (List.getElem?_eq_getElem more)
    obtain ⟨c, more, rfl, -⟩ := stands.fresh
    have longer := utf8Length_pos (List.cons_ne_nil c more)
    rw [there.position, here.position, utf8Length_append, utf8Length_append]
    omega
  · intro noMore
    rw [List.getElem?_eq_none noMore] at shown
    obtain ⟨there, -, -⟩ := here.next_none hg' (Prod.ext shown rfl)
    rw [Scanner.called_succ, there.position, utf8Length_toList]

/-- In a sentence with two conditions the first two calls show a rule and move on, and from
the third one on the scanner stands at the end. -/
theorem scanner_ends_sentence :
    let text := "Hide level < 3, and title contains 'ad' and so on"
    let scanner := ((({} : Editor).scanner text .dsl).run (.fixed ⟨0, 0, .utc, by decide⟩)).1
    (scanner.called 1).position < (scanner.called 2).position ∧
      (scanner.called 2).next.1.isSome = false ∧ (scanner.called 3).position = 49 := by
  intro text scanner
  have count : (scanner.run none).1.length = 2 := by decide +kernel
  have calls := (scanner_ends {} (.fixed ⟨0, 0, .utc, by decide⟩) text .dsl).2
  obtain ⟨-, -, -, moves, -⟩ := calls 1
  obtain ⟨-, -, shows, -, stays⟩ := calls 2
  refine ⟨moves (by rw [count]; decide), ?_, stays (by rw [count])⟩
  rw [← Bool.not_eq_true, shows, count]
  decide

/-! ### Prose behind a rule -/

/-- A run of white space. -/
def Spaces (text : String) : Prop :=
  text ≠ "" ∧ ∀ c ∈ text.toList, isBlank c = true

/-- With the tables of both languages and dates in any offset: a text that is a rule, a
connective that stands between operands, in any letter case, and a text of which no beginning
is a rule, with white space around the connective. A scanner finds the rule first and then
stands at the connective, and as a whole the text is refused. -/
theorem scanner_before_prose (offset : Offset) (clock : Clock) (mode : Mode)
    {text gap word gap' prose spelling : String} {trigger : Trigger} {connective : Connective}
    (read : ((({ offset } : Editor).parseRule text mode).run clock).1 = .ok trigger)
    (binary : connective.isUnary = false)
    (spelled : ∃ entry ∈ (({ offset } : Editor).table mode).entries,
      entry.1 = .connective connective ∧ spelling ∈ entry.2)
    (same : lower word.toList = lower spelling.toList) (spaces : Spaces gap) (spaces' : Spaces gap')
    (unread : ∀ part : String, part.toList <+: prose.toList → ∀ trigger,
      ((({ offset } : Editor).parseRule part mode).run clock).1 ≠ .ok trigger) :
    let whole := text ++ gap ++ word ++ gap' ++ prose
    (∃ start after, ((({ offset } : Editor).scanner whole mode).run clock).1.next
        = (some ⟨trigger, start, (text ++ gap).utf8ByteSize⟩, after) ∧
      after.position = (text ++ gap).utf8ByteSize ∧ after.rest = (word ++ gap' ++ prose).toList) ∧
    ∃ d, ((({ offset } : Editor).parseRule whole mode).run clock).1 = .error d := by
  intro whole
  obtain ⟨entry, hentry, named, listed⟩ := spelled
  have mem : (spelling.toList, Symbol.connective connective)
      ∈ (({ offset } : Editor).table mode).lexicon :=
    TokenTable.mem_lexicon_iff.mpr
      ⟨(writable_table offset mode).nonempty entry hentry spelling listed, entry, hentry, named,
        by rwa [String.ofList_toList]⟩
  have none : ∀ part, part <+: prose.toList → ∀ trigger,
      (({ offset } : Editor).grammar mode (clock.readings 0)).rule.complete part
        ≠ .ok trigger := by
    intro part begins trigger read
    refine unread (String.ofList part) (by rwa [String.toList_ofList]) trigger ?_
    rw [parseRule_eq_ok_iff, String.toList_ofList, read]
  have read' := Grammar.rule_of_prose (legible_table offset mode) (contained_table offset mode)
    (parseRule_eq_ok_iff.mp read) binary mem same (String.toList_eq_nil_iff.not.mpr spaces.1)
    spaces.2 (String.toList_eq_nil_iff.not.mpr spaces'.1) spaces'.2 none
  rw [← String.toList_append] at read'
  have hg : (({ offset } : Editor).grammar mode (clock.readings 0)).lexicon
      = (({ offset } : Editor).table mode).lexicon := rfl
  have split : whole.toList
      = (text ++ gap).toList ++ (word.toList ++ (gap'.toList ++ prose.toList)) := by
    simp [whole]
  obtain ⟨start, after, step, rest, position⟩ := Scanner.next_of_start hg read'
  rw [← split, utf8Length_toList] at step
  rw [utf8Length_toList] at position
  constructor
  · exact ⟨start, after, step, position, by simp [rest]⟩
  · -- Were the text a rule, the scanner would have found all of it.
    cases refused : ((({ offset } : Editor).parseRule whole mode).run clock).1 with
    | error d => exact ⟨d, rfl⟩
    | ok trigger' =>
      exfalso
      obtain ⟨start', after', step', rest', -⟩ := Scanner.next_of_rule hg rfl
        (Parser.complete_eq_ok.mp (parseRule_eq_ok_iff.mp refused))
      obtain rfl : after = after' := congrArg Prod.snd (step.symm.trans step')
      rw [rest] at rest'
      simp [spaces'.1] at rest'

/-- In a sentence with two conditions, the word behind the second one is left to the prose. -/
theorem scanner_before_prose_sentence :
    let clock := Clock.fixed ⟨0, 0, .utc, by decide⟩
    let whole := "level < 3 or title contains 'ad'" ++ " " ++ "And" ++ " " ++ "so on"
    let trigger := Trigger.group .or
      [.condition ⟨.level, .lt, .int 3⟩, .condition ⟨.title, .contains, .string "ad"⟩]
    (∃ start after, ((({} : Editor).scanner whole .dsl).run clock).1.next
        = (some ⟨trigger, start, 33⟩, after) ∧
      after.position = 33 ∧ after.rest = "And so on".toList) ∧
    ∃ d, ((({} : Editor).parseRule whole .dsl).run clock).1 = .error d := by
  intro clock whole trigger
  have space : Spaces " " := ⟨by decide, isBlank_of_mem_space⟩
  refine @scanner_before_prose .china clock .dsl "level < 3 or title contains 'ad'" " " "And" " "
    "so on" "AND" trigger .and (parseRule_eq_ok_iff.mpr (by decide +kernel)) rfl
    (by decide +kernel) (by decide) space space ?_
  -- The prose has few beginnings, and none of them is a rule.
  have none : ∀ part ∈ "so on".toList.inits,
      ((({} : Editor).grammar .dsl (clock.readings 0)).rule.complete part).isOk = false := by
    decide +kernel
  intro part begins trigger read
  have refused := none part.toList ((List.mem_inits _ _).mpr begins)
  rw [parseRule_eq_ok_iff.mp read] at refused
  cases refused

/-! ### Words -/

/-- With any tables and dates in any offset: a rule that a scanner finds does not start
within a word of identifier characters. It ends within one exactly if it ends in a date whose
last character is a digit and such a character comes directly behind it. -/
theorem scanner_cutsWord_iff (editor : Editor) (clock : Clock) (text : String) (mode : Mode) :
    let scanner := ((editor.scanner text mode).run clock).1
    ∀ (n : Nat) (found : Found), (scanner.run none).1[n]? = some found →
      ∃ before span after, found.Stands text.toList before span after ∧
        (scanner.called (n + 1)).position = found.stop ∧ (scanner.called (n + 1)).rest = after ∧
        ¬CutsWord before span ∧
        (CutsWord span after ↔ EndsInDate span ∧ (∃ c ∈ span.getLast?, c.isDigit = true) ∧
          ∃ d ∈ after.head?, isIdent d = true) := by
  intro scanner n found nth
  have hg : scanner.grammar.lexicon = (editor.table mode).lexicon := rfl
  have start : scanner.Passed text.toList [] := Scanner.passed_ofText _ _
  obtain ⟨passed, -, skipped, span, stands, there, -, read⟩ := start.finds_called hg nth
  have hg' : (scanner.called n).grammar.lexicon = (editor.table mode).lexicon := by
    rw [(start.exists_called hg n).2, hg]
  refine ⟨passed ++ skipped, span, (scanner.called (n + 1)).rest, stands, ?_, rfl, ?_, ?_, ?_⟩
  · rw [there.position, stands.stop]
  · obtain ⟨c, more, rfl, -, apart⟩ := stands.fresh
    rintro ⟨d, last, ident, e, first, ident'⟩
    cases first
    exact apart d last ⟨ident, ident'⟩
  · intro cut
    obtain ⟨before, split, dated⟩ := Grammar.rule_wholeWords hg' read
    rw [← List.append_cancel_right split] at dated
    obtain ⟨c, last, ident, first⟩ := cut
    obtain ⟨lead, written, time, rfl, date⟩ := dated ⟨c, last, ident, first⟩
    have nonempty : written ≠ [] := by
      obtain ⟨_, _, rfl, _⟩ := date.digit
      exact List.cons_ne_nil _ _
    exact ⟨⟨lead, written, time, rfl, date⟩,
      ⟨c, last, date.endsNoWord.prepend nonempty lead c last ident⟩, first⟩
  · rintro ⟨-, ⟨c, last, digit⟩, first⟩
    exact ⟨c, last, isIdent_of_isDigit digit, first⟩

/-- In a sentence with a date in front of a comma, the rule has whole words at both ends. -/
theorem scanner_cutsWord_iff_sentence :
    let text := "Hide create_time > 2023-01-01, and so on"
    let trigger := Trigger.condition
      ⟨.createTime, .gt, .instant ⟨1672502400, 0, .china, by decide⟩⟩
    ∃ before span, (⟨trigger, 5, 29⟩ : Found).Stands text.toList before span
        ", and so on".toList ∧
      ¬CutsWord before span ∧ ¬CutsWord span ", and so on".toList := by
  intro text trigger
  obtain ⟨before, span, after, stands, -, rest, fresh, ends⟩ :=
    scanner_cutsWord_iff {} (.fixed ⟨0, 0, .utc, by decide⟩) text .dsl 0 ⟨trigger, 5, 29⟩
      (by decide +kernel)
  obtain rfl : ", and so on".toList = after := by
    rw [← rest]
    decide +kernel
  refine ⟨before, span, stands, fresh, ?_⟩
  rw [ends]
  rintro ⟨-, -, d, first, ident⟩
  cases first
  exact absurd ident (by decide)

/-- A date may be all that is read of a word: the letter behind its last digit is left, and
the scanner goes on between the two. -/
theorem scanner_cuts_dated_word :
    let text := "create_time > 2023-01-01x"
    let scanner := ((({} : Editor).scanner text .dsl).run (.fixed ⟨0, 0, .utc, by decide⟩)).1
    let found : Found :=
      ⟨.condition ⟨.createTime, .gt, .instant ⟨1672502400, 0, .china, by decide⟩⟩, 0, 24⟩
    (scanner.run none).1 = [found] ∧ (scanner.called 1).position = 24 ∧
      found.Stands text.toList [] "create_time > 2023-01-01".toList ['x'] ∧
      CutsWord "create_time > 2023-01-01".toList ['x'] := by
  refine ⟨by decide +kernel, by decide +kernel, ⟨rfl, rfl, by decide, ?_⟩, ?_⟩
  · exact ⟨'c', "reate_time > 2023-01-01".toList, rfl, by decide, nofun⟩
  · exact ⟨'1', rfl, by decide, 'x', rfl, by decide⟩

end ForumModeration.Editor
