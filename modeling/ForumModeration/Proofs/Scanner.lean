import ForumModeration.Proofs.Grammar.Spans
import ForumModeration.Scanner

/-!
# `ForumModeration.Proofs.Scanner`: what a scanner finds

A scanner has gone over the first part of its text and has the rest in front of it
(`Scanner.Passed`). One step keeps this, and a rule that it finds takes up a span of the
text that the grammar reads in front of the rest (`Scanner.Finds`, `Scanner.Passed.next`).
A whole run follows from the steps, by induction on the rest of the text: the spans come
one after the other (`Scanner.Passed.run`).

One step may go over many characters. `Scanner.Skips` counts them, and it says which scanner
stands where the step comes to its end (`Scanner.Stops`, `Scanner.exists_stop`). A scanner
that is called again and again (`Scanner.called`) shows what a run finds, call by call
(`Scanner.Passed.next_called`).

A rule at the start of a text is found first (`Scanner.next_of_start`), and a text that the
strict grammar reads as one rule is found as that one rule (`Scanner.next_of_rule`).
-/

set_option autoImplicit false

namespace ForumModeration

open Text

/-! ### Positions -/

@[simp] theorem utf8Length_nil : utf8Length [] = 0 := rfl

@[simp] theorem utf8Length_append (text text' : List Char) :
    utf8Length (text ++ text') = utf8Length text + utf8Length text' := by
  induction text with
  | nil => simp
  | cons c text ih => simp [utf8Length, ih, Nat.add_assoc]

theorem utf8Length_pos {text : List Char} (nonempty : text ≠ []) : 0 < utf8Length text := by
  obtain ⟨c, text, rfl⟩ := List.exists_cons_of_ne_nil nonempty
  have := c.utf8Size_pos
  rw [utf8Length]
  omega

theorem utf8Length_ofList (text : List Char) :
    utf8Length text = (String.ofList text).utf8ByteSize := by
  induction text with
  | nil => simp
  | cons c text ih =>
    have split : String.ofList (c :: text) = String.ofList [c] ++ String.ofList text := by
      rw [← String.ofList_append]
      rfl
    rw [utf8Length, ih, split, String.utf8ByteSize_append, ← String.singleton_eq_ofList,
      String.utf8ByteSize_singleton]

/-- Positions are counted in the bytes of the text. -/
theorem utf8Length_toList (text : String) : utf8Length text.toList = text.utf8ByteSize := by
  rw [utf8Length_ofList, String.ofList_toList]

/-- A rule stands in a text: what is in front of it, the span it takes up and what comes
behind. The span starts with a character that is no blank and does not go on with a word. -/
structure Found.Stands (found : Found) (text before span after : List Char) : Prop where
  split : text = before ++ span ++ after
  start : found.start = utf8Length before
  stop : found.stop = utf8Length (before ++ span)
  fresh : ∃ c more, span = c :: more ∧ isBlank c = false ∧
    ∀ d ∈ before.getLast?, ¬(isIdent d = true ∧ isIdent c = true)

namespace Scanner

/-- The scanner has gone over the first part of a text. -/
structure Passed (scanner : Scanner) (text passed : List Char) : Prop where
  split : text = passed ++ scanner.rest
  before : scanner.before = passed.getLast?
  position : scanner.position = utf8Length passed

variable {scanner after : Scanner} {text passed rest : List Char} {found : Found}

theorem passed_ofText (g : Grammar) (text : List Char) : (ofText g text).Passed text [] where
  split := rfl
  before := rfl
  position := rfl

/-- The position is one between characters of the text. -/
theorem Passed.isValid {text : String} (h : scanner.Passed text.toList passed) :
    (⟨scanner.position⟩ : String.Pos.Raw).IsValid text ∧ scanner.position ≤ text.utf8ByteSize := by
  have split : text = String.ofList passed ++ String.ofList scanner.rest := by
    rw [← String.ofList_append, ← h.split, String.ofList_toList]
  have here : scanner.position = (String.ofList passed).utf8ByteSize := by
    rw [h.position, utf8Length_ofList]
  constructor
  · exact String.Pos.Raw.isValid_iff_exists_append.mpr ⟨_, _, split, String.Pos.Raw.ext here⟩
  · rw [split, String.utf8ByteSize_append, here]
    exact Nat.le_add_right _ _

theorem advance_append (scanner : Scanner) (consumed consumed' : List Char) :
    (scanner.advance consumed (consumed' ++ rest)).advance consumed' rest
      = scanner.advance (consumed ++ consumed') rest := by
  simp [advance, List.getLast?_append, Option.or_assoc, Nat.add_assoc]

theorem Passed.advance (h : scanner.Passed text passed) {consumed : List Char}
    (split : scanner.rest = consumed ++ rest) :
    (scanner.advance consumed rest).Passed text (passed ++ consumed) where
  split := by
    rw [List.append_assoc]
    show text = passed ++ (consumed ++ rest)
    rw [← split, ← h.split]
  before := by
    rw [List.getLast?_append, ← h.before]
    rfl
  position := by
    rw [utf8Length_append, ← h.position]
    rfl

/-! ### One step -/

theorem isCandidate_iff {before : Option Char} {c : Char} :
    isCandidate before c = true ↔
      isBlank c = false ∧ ∀ d ∈ before, ¬(isIdent d = true ∧ isIdent c = true) := by
  cases before with
  | none => simp [isCandidate]
  | some d => simp [isCandidate, Classical.or_iff_not_imp_right]

/-- At the end of the text nothing is found. -/
theorem next_nil (h : scanner.rest = []) : scanner.next = (none, scanner) := by
  obtain ⟨grammar, before, rest, position⟩ := scanner
  cases h
  rfl

/-- Where no rule starts, the scanner goes on with the next character. -/
theorem next_skip {c : Char} (split : scanner.rest = c :: rest)
    (none : isCandidate scanner.before c = false ∨ ∃ failure,
      scanner.grammar.rule (c :: rest) = .error failure) :
    scanner.next = (scanner.advance [c] rest).next := by
  have moved : search scanner.grammar scanner.before (c :: rest) scanner.position
      = search scanner.grammar (some c) rest (scanner.position + c.utf8Size) := by
    rw [search]
    rcases none with notHere | ⟨failure, fails⟩
    · rw [notHere]
      rfl
    · rw [fails]
      exact ite_self _
  rw [next, split, moved]
  rfl

/-- Where a rule is read, the scanner goes on behind it. -/
theorem next_of_read {c : Char} {more : List Char} {trigger : Trigger}
    (split : scanner.rest = c :: more ++ rest) (candidate : isCandidate scanner.before c = true)
    (read : scanner.grammar.rule (c :: more ++ rest) = .ok (trigger, rest)) :
    scanner.next = (some ⟨trigger, scanner.position, scanner.position + utf8Length (c :: more)⟩,
      scanner.advance (c :: more) rest) := by
  have consumed : consumedBy (c :: (more ++ rest)) rest = c :: more := by
    have length : max 1 ((c :: (more ++ rest)).length - rest.length) = (c :: more).length := by
      simp only [List.length_cons, List.length_append]
      omega
    rw [consumedBy, length, ← List.cons_append, List.take_left]
  rw [List.cons_append] at split read
  rw [next, split, search, if_pos candidate, read]
  show (some (Found.mk _ _ (scanner.position + utf8Length (consumedBy (c :: (more ++ rest)) rest))),
    scanner.advance (consumedBy (c :: (more ++ rest)) rest)
      ((c :: (more ++ rest)).drop (consumedBy (c :: (more ++ rest)) rest).length)) = _
  rw [consumed, ← List.cons_append, List.drop_left]

/-- The scanner goes on over a number of characters, and no rule is found at any of
them. -/
inductive Skips : Nat → Scanner → Scanner → Prop where
  | here (scanner : Scanner) : Skips 0 scanner scanner
  | further {n : Nat} {scanner last : Scanner} {c : Char} {rest : List Char}
      (split : scanner.rest = c :: rest)
      (none : isCandidate scanner.before c = false ∨ ∃ failure,
        scanner.grammar.rule (c :: rest) = .error failure)
      (more : Skips n (scanner.advance [c] rest) last) : Skips (n + 1) scanner last

/-- A search ends where the scanner stands: the text is over, or a rule is read. -/
inductive Stops (scanner : Scanner) : Option Found × Scanner → Prop where
  | atEnd (nothing : scanner.rest = []) : Stops scanner (none, scanner)
  | atRule {c : Char} {more rest : List Char} {trigger : Trigger}
      (split : scanner.rest = c :: more ++ rest)
      (candidate : isCandidate scanner.before c = true)
      (read : scanner.grammar.rule (c :: more ++ rest) = .ok (trigger, rest)) :
      Stops scanner (some ⟨trigger, scanner.position, scanner.position + utf8Length (c :: more)⟩,
        scanner.advance (c :: more) rest)

namespace Skips

variable {n : Nat} {last : Scanner}

/-- One search is as good as the other. -/
theorem next_eq (h : Skips n scanner last) : scanner.next = last.next := by
  induction h with
  | here => rfl
  | further split none _ ih => rw [next_skip split none, ih]

theorem length (h : Skips n scanner last) : scanner.rest.length = n + last.rest.length := by
  induction h with
  | here => simp
  | @further n scanner last c rest split none more ih =>
    have advanced : rest.length = n + last.rest.length := ih
    simp [split, advanced, Nat.add_right_comm]

theorem grammar (h : Skips n scanner last) : last.grammar = scanner.grammar := by
  induction h with
  | here => rfl
  | further _ _ _ ih => exact ih

/-- Wherever the scanner comes to, it has gone over what stands in front. -/
theorem exists_passed (h : Skips n scanner last) (passed_ : scanner.Passed text passed) :
    ∃ skipped, last.Passed text (passed ++ skipped) := by
  induction h generalizing passed with
  | here => exact ⟨[], by rwa [List.append_nil]⟩
  | @further n scanner last c rest split none more ih =>
    have behind : (scanner.advance [c] rest).Passed text (passed ++ [c]) := passed_.advance split
    obtain ⟨skipped, passed_⟩ := ih behind
    exact ⟨[c] ++ skipped, by rwa [← List.append_assoc]⟩

end Skips

/-- Blanks are gone over. -/
theorem skips_blanks {blanks : List Char} (split : scanner.rest = blanks ++ rest)
    (blank : ∀ c ∈ blanks, isBlank c = true) :
    Skips blanks.length scanner (scanner.advance blanks rest) := by
  induction blanks generalizing scanner with
  | nil =>
    obtain ⟨grammar, before, _, position⟩ := scanner
    cases split
    exact .here _
  | cons c blanks ih =>
    have notHere : isCandidate scanner.before c = false := by
      simp [isCandidate, blank c (by simp)]
    refine .further split (.inl notHere) ?_
    have more : Skips blanks.length (scanner.advance [c] (blanks ++ rest))
        ((scanner.advance [c] (blanks ++ rest)).advance blanks rest) :=
      ih rfl fun d mem => blank d (by simp [mem])
    rwa [advance_append] at more

/-- A step finds a rule: behind what was passed and perhaps some more of the text, the
grammar reads the rule in front of the rest. -/
def Finds (scanner : Scanner) (text passed : List Char) (found : Found) (after : Scanner) : Prop :=
  ∃ skipped span, found.Stands text (passed ++ skipped) span after.rest ∧
    after.Passed text (passed ++ skipped ++ span) ∧ after.grammar = scanner.grammar ∧
    scanner.grammar.rule (span ++ after.rest) = .ok (found.trigger, after.rest)

section

variable {table : TokenTable}

/-- Each search ends, and what it ends with is the result of the step. -/
theorem exists_stop (hg : scanner.grammar.lexicon = table.lexicon) :
    ∃ n last, Skips n scanner last ∧ last.Stops scanner.next := by
  -- By induction on the text in front of the scanner: it skips a character or finds a rule.
  generalize ahead : scanner.rest = front
  induction front generalizing scanner with
  | nil =>
    refine ⟨0, scanner, .here _, ?_⟩
    rw [next_nil ahead]
    exact .atEnd ahead
  | cons c front ih =>
    have skip : (isCandidate scanner.before c = false ∨ ∃ failure,
        scanner.grammar.rule (c :: front) = .error failure) →
        ∃ n last, Skips n scanner last ∧ last.Stops scanner.next := by
      intro none
      obtain ⟨n, last, skips, stops⟩ := @ih (scanner.advance [c] front) hg rfl
      rw [next_skip ahead none]
      exact ⟨n + 1, last, .further ahead none skips, stops⟩
    cases candidate : isCandidate scanner.before c with
    | false => exact skip (.inl candidate)
    | true =>
      cases read : scanner.grammar.rule (c :: front) with
      | error failure => exact skip (.inr ⟨failure, read⟩)
      | ok result =>
        obtain ⟨trigger, rest⟩ := result
        obtain ⟨more, rfl⟩ := Grammar.exists_first_of_rule hg read
        refine ⟨0, scanner, .here _, ?_⟩
        rw [next_of_read ahead candidate read]
        exact .atRule ahead candidate read

/-- What one step finds. -/
theorem Passed.next (hg : scanner.grammar.lexicon = table.lexicon)
    (h : scanner.Passed text passed) (step : scanner.next = (some found, after)) :
    scanner.Finds text passed found after := by
  obtain ⟨n, last, skips, stops⟩ := exists_stop hg
  obtain ⟨skipped, here⟩ := skips.exists_passed h
  rw [step] at stops
  cases stops with
  | @atRule c more rest trigger split candidate read =>
    have passed' := here.advance split
    obtain ⟨notBlank, apart⟩ := isCandidate_iff.mp candidate
    rw [here.before] at apart
    rw [skips.grammar] at read
    exact ⟨skipped, c :: more, ⟨passed'.split, here.position, passed'.position, c, more, rfl,
      notBlank, apart⟩, passed', skips.grammar, read⟩

/-- A step that finds nothing has gone over the whole text. -/
theorem Passed.next_none (hg : scanner.grammar.lexicon = table.lexicon)
    (h : scanner.Passed text passed) (step : scanner.next = (none, after)) :
    after.Passed text text ∧ after.rest = [] ∧ after.grammar = scanner.grammar := by
  obtain ⟨n, last, skips, stops⟩ := exists_stop hg
  obtain ⟨skipped, here⟩ := skips.exists_passed h
  rw [step] at stops
  cases stops with
  | atEnd nothing =>
    have whole := here.split
    rw [nothing, List.append_nil] at whole
    rw [← whole] at here
    exact ⟨here, nothing, skips.grammar⟩

end

/-! ### A whole run -/

theorem run_zero (scanner : Scanner) : scanner.run (some 0) = ([], scanner) := by
  rw [run, if_pos rfl]

theorem run_of_none (limit : Option Nat) (wanted : limit ≠ some 0)
    (step : scanner.next = (none, after)) : scanner.run limit = ([], after) := by
  rw [run, if_neg wanted]
  split
  · rename_i after' step'
    rw [step] at step'
    cases step'
    rfl
  · rename_i found' after' step'
    rw [step] at step'
    cases step'

theorem run_of_some (limit : Option Nat) (wanted : limit ≠ some 0)
    (step : scanner.next = (some found, after)) :
    scanner.run limit
      = (found :: (after.run (limit.map (· - 1))).1, (after.run (limit.map (· - 1))).2) := by
  rw [run, if_neg wanted]
  split
  · rename_i after' step'
    rw [step] at step'
    cases step'
  · rename_i found' after' step'
    rw [step] at step'
    cases step'
    rfl

/-- A limit keeps the first rules of all. -/
theorem run_some_eq_take (scanner : Scanner) (n : Nat) :
    (scanner.run (some n)).1 = (scanner.run none).1.take n := by
  induction n generalizing scanner with
  | zero =>
    rw [run_zero]
    rfl
  | succ n ih =>
    rcases step : scanner.next with ⟨_ | found, after⟩
    · rw [run_of_none (some (n + 1)) nofun step, run_of_none none nofun step]
      rfl
    · rw [run_of_some (some (n + 1)) nofun step, run_of_some none nofun step]
      exact congrArg (found :: ·) (ih after)

section

variable {table : TokenTable}

/-- All rules that are found: each of them stands behind what was passed, and they come
one after the other. -/
theorem Passed.run (hg : scanner.grammar.lexicon = table.lexicon) (h : scanner.Passed text passed) :
    (∀ found ∈ (scanner.run none).1, utf8Length passed ≤ found.start ∧
      ∃ before span after, found.Stands text before span after ∧
        scanner.grammar.rule (span ++ after) = .ok (found.trigger, after)) ∧
    (scanner.run none).1.Pairwise (·.stop ≤ ·.start) := by
  -- By induction on the length of the text in front of the scanner.
  generalize bound : scanner.rest.length = n
  induction n using Nat.strongRecOn generalizing scanner passed with
  | ind n ih =>
    rcases step : scanner.next with ⟨_ | found, after⟩
    · rw [run_of_none none nofun step]
      exact ⟨nofun, List.Pairwise.nil⟩
    · obtain ⟨skipped, span, stands, passed', same, read⟩ := h.next hg step
      have shorter : after.rest.length < n := by
        rw [← bound]
        exact next_length_lt step
      obtain ⟨others, apart⟩ := ih _ shorter (by rw [same]; exact hg) passed' rfl
      rw [same] at others
      rw [run_of_some none nofun step]
      constructor
      · intro other mem
        rcases List.mem_cons.mp mem with rfl | mem
        · refine ⟨?_, _, _, _, stands, read⟩
          rw [stands.start, utf8Length_append]
          exact Nat.le_add_right _ _
        · obtain ⟨behind, rest⟩ := others other mem
          refine ⟨?_, rest⟩
          rw [utf8Length_append, utf8Length_append] at behind
          omega
      · refine List.pairwise_cons.mpr ⟨?_, apart⟩
        intro other mem
        rw [stands.stop]
        exact (others other mem).1

/-- A scanner that has found some of the rules is left behind the last of them. -/
theorem Passed.position_run (hg : scanner.grammar.lexicon = table.lexicon)
    (h : scanner.Passed text passed) {n : Nat} (nth : (scanner.run none).1[n]? = some found) :
    (scanner.run (some (n + 1))).2.position = found.stop := by
  induction n generalizing scanner passed with
  | zero =>
    rcases step : scanner.next with ⟨_ | first, after⟩
    · rw [run_of_none none nofun step] at nth
      cases nth
    · obtain ⟨_, _, stands, passed', _, _⟩ := h.next hg step
      rw [run_of_some none nofun step] at nth
      rw [run_of_some (some 1) nofun step]
      cases nth
      rw [stands.stop, ← passed'.position]
      exact congrArg (·.2.position) (run_zero after)
  | succ n ih =>
    rcases step : scanner.next with ⟨_ | first, after⟩
    · rw [run_of_none none nofun step] at nth
      cases nth
    · obtain ⟨_, _, _, passed', same, _⟩ := h.next hg step
      rw [run_of_some none nofun step] at nth
      rw [run_of_some (some (n + 2)) nofun step]
      exact ih (by rw [same]; exact hg) passed' nth

end

/-! ### Call after call -/

/-- The scanner after a number of calls, whatever they have found. -/
def called (scanner : Scanner) (n : Nat) : Scanner :=
  (fun scanner => scanner.next.2)^[n] scanner

theorem called_zero (scanner : Scanner) : scanner.called 0 = scanner :=
  rfl

theorem called_succ (scanner : Scanner) (n : Nat) :
    scanner.called (n + 1) = (scanner.called n).next.2 :=
  Function.iterate_succ_apply' _ _ _

/-- The calls behind the first one are calls of the scanner that it leaves. -/
theorem called_succ_of_next (step : scanner.next = (some found, after)) (n : Nat) :
    scanner.called (n + 1) = after.called n := by
  rw [called, Function.iterate_succ_apply, step]
  rfl

/-- At the end of the text every call leaves the scanner as it is. -/
theorem called_of_nil (h : scanner.rest = []) (n : Nat) : scanner.called n = scanner := by
  refine Function.iterate_fixed ?_ n
  rw [next_nil h]

theorem length_run_le (scanner : Scanner) : (scanner.run none).1.length ≤ scanner.rest.length := by
  -- By induction on the length of the text in front, which every rule that is found shortens.
  generalize bound : scanner.rest.length = n
  induction n using Nat.strongRecOn generalizing scanner with
  | ind n ih =>
    rcases step : scanner.next with ⟨_ | found, after⟩
    · simp [run_of_none none nofun step]
    · have shorter := next_length_lt step
      have others := ih after.rest.length (by omega) after rfl
      simp only [run_of_some none nofun step, Option.map_none, List.length_cons]
      omega

section

variable {table : TokenTable}

/-- However often a scanner is called, it has gone over some of the text. -/
theorem Passed.exists_called (hg : scanner.grammar.lexicon = table.lexicon)
    (h : scanner.Passed text passed) (n : Nat) :
    (∃ passed, (scanner.called n).Passed text passed) ∧
      (scanner.called n).grammar = scanner.grammar := by
  induction n with
  | zero => exact ⟨⟨passed, h⟩, rfl⟩
  | succ n ih =>
    obtain ⟨⟨passed, here⟩, same⟩ := ih
    have hg' : (scanner.called n).grammar.lexicon = table.lexicon := by rw [same, hg]
    rw [called_succ]
    rcases step : (scanner.called n).next with ⟨_ | found, after⟩
    · obtain ⟨there, _, same'⟩ := here.next_none hg' step
      exact ⟨⟨_, there⟩, same'.trans same⟩
    · obtain ⟨_, _, _, there, same', _⟩ := here.next hg' step
      exact ⟨⟨_, there⟩, same'.trans same⟩

/-- The calls show the rules of the text one by one, and nothing when there are no more. -/
theorem Passed.next_called (hg : scanner.grammar.lexicon = table.lexicon)
    (h : scanner.Passed text passed) (n : Nat) :
    (scanner.called n).next.1 = (scanner.run none).1[n]? := by
  induction n generalizing scanner passed with
  | zero =>
    rcases step : scanner.next with ⟨_ | found, after⟩
    · simp [called_zero, step, run_of_none none nofun step]
    · simp [called_zero, step, run_of_some none nofun step]
  | succ n ih =>
    rcases step : scanner.next with ⟨_ | found, after⟩
    · have nothing := (h.next_none hg step).2.1
      have stays : scanner.called (n + 1) = after := by
        rw [called, Function.iterate_succ_apply, step]
        exact called_of_nil nothing n
      simp [stays, next_nil nothing, run_of_none none nofun step]
    · obtain ⟨_, _, _, passed', same, _⟩ := h.next hg step
      have hg' : after.grammar.lexicon = table.lexicon := by rw [same, hg]
      simp [called_succ_of_next step, run_of_some none nofun step, ih hg' passed']

/-- Each of the rules is found by a call, behind what the scanner has gone over before. -/
theorem Passed.finds_called (hg : scanner.grammar.lexicon = table.lexicon)
    (h : scanner.Passed text passed) {n : Nat} (nth : (scanner.run none).1[n]? = some found) :
    ∃ passed, (scanner.called n).Passed text passed ∧
      (scanner.called n).Finds text passed found (scanner.called (n + 1)) := by
  obtain ⟨⟨passed, here⟩, same⟩ := h.exists_called hg n
  have shown := (h.next_called hg n).trans nth
  refine ⟨passed, here, ?_⟩
  rw [called_succ]
  exact here.next (by rw [same, hg]) (Prod.ext shown rfl)

end

/-! ### A rule at the start -/

/-- A text that the lenient grammar reads as a rule in front of some more text: the scanner
finds the rule and stands behind what was read. -/
theorem next_of_start {table : TokenTable} {g : Grammar} (hg : g.lexicon = table.lexicon)
    {taken : List Char} {trigger : Trigger}
    (read : ({ g with lenient := true } : Grammar).rule (taken ++ rest) = .ok (trigger, rest)) :
    ∃ start after,
      (ofText g (taken ++ rest)).next = (some ⟨trigger, start, utf8Length taken⟩, after) ∧
        after.rest = rest ∧ after.position = utf8Length taken := by
  have hg' : ({ g with lenient := true } : Grammar).lexicon = table.lexicon := hg
  rw [← Grammar.rule_skipBlanks] at read
  obtain ⟨blanks, split, blank⟩ := exists_blanks (taken ++ rest)
  have notBlank := ahead_dropWhile isBlank (taken ++ rest)
  change Ahead _ (skipBlanks (taken ++ rest)) at notBlank
  cases ahead : skipBlanks (taken ++ rest) with
  | nil =>
    rw [ahead] at read
    exact absurd (Grammar.rule_length_lt hg' read) (Nat.not_lt_zero _)
  | cons c front =>
    rw [ahead] at read notBlank split
    obtain ⟨more, rfl⟩ := Grammar.exists_first_of_rule hg' read
    rw [ahead_cons] at notBlank
    have passed : ((ofText g (taken ++ rest)).advance blanks (c :: more ++ rest)).Passed
        (taken ++ rest) blanks := (passed_ofText g _).advance split
    have candidate : isCandidate ((ofText g (taken ++ rest)).advance blanks
        (c :: more ++ rest)).before c = true := by
      refine isCandidate_iff.mpr ⟨notBlank, ?_⟩
      -- What stands in front is a blank or nothing.
      rw [passed.before]
      rintro d last ⟨ident, _⟩
      rw [isIdent_eq_false_of_isBlank (blank d (List.mem_of_getLast? last))] at ident
      cases ident
    have step := next_of_read rfl candidate read
    have behind := passed.advance rfl
    have whole : taken = blanks ++ c :: more := by
      rw [← List.cons_append, ← List.append_assoc] at split
      exact List.append_cancel_right split
    rw [passed.position, ← utf8Length_append, ← whole] at step
    refine ⟨_, _, (skips_blanks split blank).next_eq.trans step, rfl, ?_⟩
    rw [behind.position, ← whole]

/-- A text that is read as one rule: the scanner finds the rule and takes it up to the end
of the text. -/
theorem next_of_rule {table : TokenTable} {g : Grammar} (hg : g.lexicon = table.lexicon)
    (strict : g.lenient = false) {trigger : Trigger} (read : g.rule text = .ok (trigger, [])) :
    ∃ start after, (ofText g text).next = (some ⟨trigger, start, utf8Length text⟩, after) ∧
      after.rest = [] ∧ after.position = utf8Length text := by
  have read' := Grammar.rule_lenient_of_rule strict read
  rw [← List.append_nil text] at read'
  obtain ⟨start, after, step, ends⟩ := next_of_start hg read'
  rw [List.append_nil] at step
  exact ⟨start, after, step, ends⟩

end Scanner

end ForumModeration
