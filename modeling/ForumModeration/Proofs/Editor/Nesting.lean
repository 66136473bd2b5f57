import ForumModeration.Proofs.Editor.Reading
import ForumModeration.Proofs.Grammar.Counter
import ForumModeration.Proofs.Grammar.Nesting

/-!
# `ForumModeration.Proofs.Editor.Nesting`: hostile nesting

Readers call themselves where parentheses, negations and lists nest, so a text could take
them as deep as it is long. `nesting_guarded` says that it cannot, with the tables of both
languages. A text that opens too many levels at its start is refused right behind the first
sign that is too many, whatever the signs are and whatever comes next. And one counter for
all three kinds does for the guard: it is back after each level, it never is above 128, and
what is refused for nesting too deep did open all of these levels.
-/

set_option autoImplicit false

namespace ForumModeration.Editor

open Text

theorem opensPlainly_table (offset : Offset) (mode : Mode) :
    (({ offset } : Editor).table mode).OpensPlainly := by
  cases mode
  · exact TokenTable.opensPlainly_dsl
  · exact TokenTable.opensPlainly_cnl

/-- With the tables of both languages and dates in any offset. Where 129 levels or more are
opened at the start of a text, parsing asks for shallower nesting, at the place right behind
the sign that opens the last of 129 of them.

A reader that counts the levels that are open reads rules just as a grammar does, be it strict
or lenient and whatever its tokens are, from any state of the counter in which no level is
open. It has no level open at its end and never more than 128 on the way, and it was there if
it asks for shallower nesting. Whatever it reads one level deeper, it gives the level back. -/
theorem nesting_guarded (offset : Offset) (clock : Clock) (text : String) (mode : Mode) :
    let editor : Editor := { offset }
    (∀ (n : Nat) (rest : List Char), 129 ≤ n → (editor.table mode).Opens n text.toList rest →
      ∃ d before stop, ((editor.parseRule text mode).run clock).1 = .error d ∧
        d.trouble = .expected "shallower nesting" ∧ text.toList = before ++ stop ∧
        d.offset = before.length ∧
        ∀ other, (editor.table mode).Opens 129 text.toList other ↔ other = stop) ∧
    (∀ (grammar : Grammar) (calls highest : Nat), 128 < calls → highest ≤ 128 →
      let run := Counting.rule grammar calls text.toList ⟨0, highest⟩
      run.1 = grammar.rule text.toList ∧ run.2.opened = 0 ∧ run.2.highest ≤ 128 ∧
        ∀ failure, run.1 = .error failure →
          failure.expected = some (.requirement .shallowerNesting) → run.2.highest = 128) ∧
    ∀ (α : Type) (q : Counting α) (part : List Char) (levels : Levels),
      (Counting.nested q part levels).2.opened = levels.opened := by
  intro editor
  refine ⟨?_, ?_, fun _ => Counting.nested_restores⟩
  · intro n rest many opens
    -- Another place behind 129 signs would be the place of the same failure.
    have refused : ∀ {stop}, (editor.table mode).Opens 129 text.toList stop →
        (editor.grammar mode (clock.readings 0)).rule text.toList = .error (Grammar.tooDeep stop) :=
      Grammar.rule_of_opens rfl (legible_table offset mode) (contained_table offset mode)
        (opensPlainly_table offset mode)
    obtain ⟨stop, first⟩ := opens.take many
    obtain ⟨before, split⟩ := first.suffix
    have failed : (editor.grammar mode (clock.readings 0)).rule.complete text.toList
        = .error (Grammar.tooDeep stop) := by
      unfold Parser.complete
      rw [refused first]
    refine ⟨_, before, stop, parseRule_eq_error_iff.mpr ⟨_, failed, rfl⟩, rfl, split.symm, ?_, ?_⟩
    · change text.toList.length - stop.length = before.length
      rw [← split, List.length_append, Nat.add_sub_cancel]
    · intro other
      constructor
      · intro first'
        have same := Except.error.inj ((refused first').symm.trans (refused first))
        exact congrArg Failure.rest same
      · rintro rfl
        exact first
  · intro grammar calls highest enough bounded run
    have agrees := Counting.rule_agrees grammar enough bounded text.toList
    refine ⟨agrees.same, agrees.back, agrees.bounded, ?_⟩
    intro failure failed named
    exact agrees.tight ⟨failure, agrees.same.symm.trans failed, named⟩

/-- Parentheses and negations by turns, and a list, all of them left open. -/
def hostile (n : Nat) : List Char :=
  (List.replicate n " ( NOT".toList).flatten ++ " floor in [ and so on".toList

theorem opens_hostile (n : Nat) :
    TokenTable.dsl.Opens (2 * n + 1) (hostile n) " and so on".toList := by
  -- One more turn opens two more levels.
  induction n with
  | zero =>
    have field : TokenTable.dsl.Token (.field .floor) (hostile 0) " in [ and so on".toList :=
      @TokenTable.Token.spaced _ _ _ "floor".toList (by decide) (by decide)
        fun _ => ahead_cons.mpr (by decide)
    have operator : TokenTable.dsl.Token (.operator .among) " in [ and so on".toList
        " [ and so on".toList :=
      @TokenTable.Token.spaced _ _ _ "in".toList (by decide) (by decide)
        fun _ => ahead_cons.mpr (by decide)
    have bracket : TokenTable.dsl.Token (.punctuation .leftBracket) " [ and so on".toList
        " and so on".toList :=
      @TokenTable.Token.spaced _ _ _ ['['] (by decide) (by decide)
        fun ends => absurd ends (by decide)
    exact .list field operator (.more bracket (.none _))
  | succ n ih =>
    obtain ⟨more, same⟩ : ∃ more, hostile n = ' ' :: more := by
      cases n <;> exact ⟨_, rfl⟩
    have turn : hostile (n + 1) = " (".toList ++ (" NOT".toList ++ hostile n) := by
      simp [hostile, List.replicate_succ]
    have not_ : TokenTable.dsl.Token (.connective .not) (" NOT".toList ++ hostile n)
        (hostile n) := by
      rw [same]
      exact @TokenTable.Token.spaced _ _ _ "NOT".toList (by decide) (by decide)
        fun _ => ahead_cons.mpr (by decide)
    have opening : TokenTable.dsl.Token (.punctuation .leftParen) (hostile (n + 1))
        (" NOT".toList ++ hostile n) := by
      rw [turn]
      exact @TokenTable.Token.spaced _ _ _ ['('] (by decide) (by decide)
        fun ends => absurd ends (by decide)
    exact .paren opening (.negation not_ ih)

/-- With 64 parentheses, 64 negations and one bracket, the refusal stands behind the bracket,
and all the levels that there may be have been open. -/
theorem nesting_guarded_hostile :
    let text := String.ofList (hostile 64)
    let clock := Clock.fixed ⟨0, 0, .utc, by decide⟩
    (∃ d, ((({} : Editor).parseRule text .dsl).run clock).1 = .error d ∧
      d.trouble = .expected "shallower nesting" ∧ d.offset = 395) ∧
    (Counting.rule (({} : Editor).grammar .dsl (clock.readings 0)) 129 text.toList
      ⟨0, 0⟩).2.highest = 128 := by
  intro text clock
  obtain ⟨guard, counter, -⟩ := nesting_guarded .china clock text .dsl
  have opens : TokenTable.dsl.Opens 129 text.toList " and so on".toList := by
    rw [String.toList_ofList]
    exact opens_hostile 64
  constructor
  · obtain ⟨d, before, stop, failed, trouble, split, offset, only⟩ :=
      guard 129 _ (Nat.le_refl _) opens
    refine ⟨d, failed, trouble, ?_⟩
    have length : text.toList.length = 405 := by
      rw [String.toList_ofList]
      decide +kernel
    have left : " and so on".toList.length = 10 := rfl
    rw [split, ← (only _).mp opens, List.length_append, left] at length
    omega
  · have refused : (({} : Editor).grammar .dsl (clock.readings 0)).rule text.toList
        = .error (Grammar.tooDeep " and so on".toList) :=
      Grammar.rule_of_opens rfl TokenTable.legible_dsl TokenTable.contained_dsl
        TokenTable.opensPlainly_dsl opens
    obtain ⟨same, -, -, tight⟩ := counter _ 129 0 (by decide) (by decide)
    exact tight _ (same.trans refused) rfl

end ForumModeration.Editor
