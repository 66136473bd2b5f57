import ForumModeration.Proofs.Grammar.Spans

/-!
# `ForumModeration.Proofs.Grammar.Words`: words at the end of a rule

A word is a run of identifier characters. A token does not stop within one, and a number
does not either. A date does: it ends behind the last digit that it has room for, whatever
comes next. So a rule ends within a word only if it ends in a date (`WholeWords`,
`rule_wholeWords`).
-/

set_option autoImplicit false

namespace ForumModeration

open Text

/-- Where the one text ends and the other one goes on, there is a word that does. -/
def CutsWord (before after : List Char) : Prop :=
  ∃ c ∈ before.getLast?, isIdent c = true ∧ ∃ d ∈ after.head?, isIdent d = true

/-- The end of a text is a date. -/
def EndsInDate (text : List Char) : Prop :=
  ∃ lead written time, text = lead ++ written ∧ DateText written time

/-- The second text is the end of the first. It starts within a word only if a date stands
in front of it. -/
def WholeWords (text rest : List Char) : Prop :=
  ∃ before, text = before ++ rest ∧ (CutsWord before rest → EndsInDate before)

namespace WholeWords

variable {text mid rest : List Char}

theorem of_last {before : List Char} (h : ∀ c ∈ before.getLast?, isIdent c = false) :
    WholeWords (before ++ rest) rest := by
  refine ⟨before, rfl, ?_⟩
  rintro ⟨c, last, ident, _⟩
  rw [h c last] at ident
  cases ident

theorem of_ahead {before : List Char} (h : Ahead (isIdent · = false) rest) :
    WholeWords (before ++ rest) rest := by
  refine ⟨before, rfl, ?_⟩
  rintro ⟨c, _, _, d, first, ident⟩
  rw [h d first] at ident
  cases ident

theorem refl (text : List Char) : WholeWords text text :=
  @of_last text [] fun _ last => by cases last

/-- What comes last decides. -/
theorem prepend (h : WholeWords text rest) (shorter : rest.length < text.length)
    (front : List Char) : WholeWords (front ++ text) rest := by
  obtain ⟨before, rfl, dated⟩ := h
  have nonempty : before ≠ [] := by
    rintro rfl
    exact absurd shorter (Nat.lt_irrefl _)
  refine ⟨front ++ before, by rw [List.append_assoc], ?_⟩
  rintro ⟨c, last, cut⟩
  rw [List.getLast?_append_of_ne_nil _ nonempty] at last
  obtain ⟨lead, written, time, rfl, date⟩ := dated ⟨c, last, cut⟩
  exact ⟨front ++ lead, written, time, by rw [List.append_assoc], date⟩

theorem trans (first : WholeWords text mid) (second : WholeWords mid rest) :
    WholeWords text rest := by
  obtain ⟨before, rfl, _⟩ := id first
  rcases Nat.lt_or_ge rest.length mid.length with shorter | same
  · exact second.prepend shorter before
  · -- Nothing is read the second time, so the first reading decides.
    obtain ⟨between, rfl, _⟩ := second
    rw [List.length_append] at same
    obtain rfl : between = [] := List.length_eq_zero_iff.mp (by omega)
    exact first

theorem blanks {before : List Char} (blank : ∀ c ∈ before, isBlank c = true) :
    WholeWords (before ++ rest) rest :=
  of_last fun c last => isIdent_eq_false_of_isBlank (blank c (List.mem_of_getLast? last))

theorem seam : Seam WholeWords :=
  ⟨⟨.refl, .trans⟩, .blanks⟩

end WholeWords

/-- A token ends at the end of a word. -/
theorem TokenTable.Token.wholeWords {table : TokenTable} {symbol : Symbol} {text rest : List Char}
    (h : table.Token symbol text rest) : WholeWords text rest := by
  obtain ⟨blanks, written, token, rfl, blank, _, same, boundary⟩ := h
  rw [List.append_assoc]
  refine (WholeWords.blanks blank).trans ⟨written, rfl, ?_⟩
  rintro ⟨c, last, ident, d, first, goesOn⟩
  -- The token ends in the same letter, perhaps in the other case, so nothing may go on.
  obtain ⟨e, last', letter⟩ := exists_getLast?_of_lower same.symm last
  have ends : token.getLast?.any isIdent = true := by
    rw [last', Option.any_some, ← isIdent_toLower, letter, isIdent_toLower, ident]
  rw [(boundary ends d first).1] at goesOn
  cases goesOn

section

variable {table : TokenTable} {now : Instant} {text rest : List Char}

theorem RelativePhrase.wholeWords {instant : Instant}
    (h : RelativePhrase table now text instant rest) : WholeWords text rest := by
  cases h with
  | @plain run _ _ _ _ _ _ unit_ _ => exact unit_.wholeWords.prepend unit_.length_lt run
  | @ago run _ _ _ _ _ _ _ unit_ ago_ _ =>
    exact (unit_.wholeWords.trans ago_.wholeWords).prepend
      (ago_.length_lt.trans unit_.length_lt) run

/-- A value that is no list stops within a word only if it is a date. -/
theorem BarePhrase.wholeWords {wantsDate : Bool} {value : Value}
    (h : BarePhrase table now wantsDate text value rest) : WholeWords text rest := by
  cases h with
  | @string mark body _ _ _ mark_ _ _ =>
    have whole : WholeWords (mark :: body ++ [mark] ++ rest) rest := by
      refine .of_last ?_
      intro c last
      rw [List.getLast?_concat, Option.mem_some] at last
      rw [← last]
      rcases mark_ with rfl | rfl <;> decide
    simpa only [List.cons_append, List.append_assoc, List.nil_append] using whole
  | @date written _ _ date_ =>
    obtain ⟨time, date, _⟩ := date_
    exact ⟨written, rfl, fun _ => ⟨[], written, time, rfl, date⟩⟩
  | relative relative_ => exact relative_.wholeWords
  | number _ boundary => exact .of_ahead boundary
  | truth token => exact token.wholeWords
  | now token => exact token.wholeWords

end

theorem WholeWords.seamOf (table : TokenTable) (now : Instant) : SeamOf table now WholeWords where
  toSeam := WholeWords.seam
  token := TokenTable.Token.wholeWords
  bare := BarePhrase.wholeWords

namespace Grammar

/-- A rule stops within a word only if it ends in a date. -/
theorem rule_wholeWords {table : TokenTable} {g : Grammar} (hg : g.lexicon = table.lexicon) :
    Leaves WholeWords g.rule :=
  rule_seam (WholeWords.seamOf table g.now) hg

end Grammar

end ForumModeration
