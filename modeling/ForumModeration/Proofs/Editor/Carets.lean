import ForumModeration.Proofs.Editor.Reading
import ForumModeration.Proofs.Grammar.Calls
import ForumModeration.Proofs.Grammar.Stops
import ForumModeration.Proofs.Text.Anchored

/-!
# `ForumModeration.Proofs.Editor.Carets`: carets stand under the line

A diagnostic shows the line where reading stopped and puts a caret in the column of that place.
The column is the width of the line's text before the place, and the text behind it may lessen
that width. Two facts keep the caret in the line. What a reading goes over is anchored: tokens,
names and values are steady characters, and strings end in quotes (`Clear`). And a reading that
has gone over a carriage return does not stop in front of another one, as blanks are skipped
together.

One case is left (`diagnostic_caret_iff`). The carriage returns at the end of a line are not
shown, but the caret is moved by those before the place. They all are where reading stops at the
end of a text that ends in one, and there the caret stands beyond the line
(`caret_beyond_line`).
-/

set_option autoImplicit false

namespace ForumModeration

open Text Text.DisplayWidth

/-! ### Tokens -/

namespace TokenTable

/-- The characters of the tokens of both languages. -/
def spelling : CodePoints :=
  [(0x21, 0x7E), (0x3001, 0x3001), (0x3010, 0x3011), (0x4E00, 0x9FFF), (0xFF08, 0xFF09),
   (0xFF0C, 0xFF0C), (0xFF1A, 0xFF1A), (0xFF1D, 0xFF1D), (0xFF3B, 0xFF3B), (0xFF3D, 0xFF3D)]

/-- The tokens of a table are made of such characters. -/
def Spelled (table : TokenTable) : Prop :=
  ∀ entry ∈ table.entries, ∀ token ∈ entry.2, token.toList.all spelling.contains = true

theorem spelled_dsl : dsl.Spelled := by
  unfold Spelled
  decide +kernel

theorem spelled_cnl : cnl.Spelled := by
  unfold Spelled
  decide +kernel

/-- Letters of either case are among these characters. -/
theorem contains_spelling_of_lower {c d : Char} (same : c.toLower = d.toLower)
    (h : spelling.contains d = true) : spelling.contains c = true := by
  have letter : 0x41 ≤ c.toNat ∧ c.toNat ≤ 0x7A → spelling.contains c = true := fun range =>
    CodePoints.contains_iff.mpr ⟨(0x21, 0x7E), List.mem_cons_self, by omega, by omega⟩
  rcases toLower_cases c with ⟨hc, _⟩ | ⟨low, high, _⟩
  · rcases toLower_cases d with ⟨hd, _⟩ | ⟨low, high, hd⟩
    · rw [← hc, same, hd]
      exact h
    · rw [← same, hc] at hd
      exact letter (by omega)
  · exact letter (by omega)

theorem steady_of_spelling {c : Char} (h : spelling.contains c = true) :
    Steady c ∧ isBlank c = false := by
  refine ⟨steady_of_contains (by decide) (by decide) h, ?_⟩
  obtain ⟨range, mem, low, high⟩ := CodePoints.contains_iff.mp h
  rw [← Bool.not_eq_true]
  intro blank
  simp only [isBlank, Bool.or_eq_true, Bool.and_eq_true, decide_eq_true_eq] at blank
  simp only [spelling, List.mem_cons, List.not_mem_nil, or_false] at mem
  rcases mem with rfl | rfl | rfl | rfl | rfl | rfl | rfl | rfl | rfl | rfl <;> omega

end TokenTable

/-! ### Clear readings -/

/-- The second text is the end of the first, what stands before it is anchored, and where that
ends in a carriage return, the second text starts with no blank. -/
def Clear (text rest : List Char) : Prop :=
  ∃ before, text = before ++ rest ∧ Anchored before ∧
    (before.getLast? = some '\r' → Ahead (isBlank · = false) rest)

namespace Clear

variable {text mid rest : List Char}

theorem refl (text : List Char) : Clear text text :=
  ⟨[], rfl, .of_steady nofun, nofun⟩

theorem trans (first : Clear text mid) (second : Clear mid rest) : Clear text rest := by
  obtain ⟨before, rfl, anchored, blank⟩ := first
  obtain ⟨between, rfl, anchored', blank'⟩ := second
  refine ⟨before ++ between, by rw [List.append_assoc], anchored.append anchored', ?_⟩
  rcases List.eq_nil_or_concat between with rfl | ⟨front, last, rfl⟩
  · simpa using blank
  · simpa using blank'

/-- What ends in no blank is clear of what follows. -/
theorem of_last {before : List Char} (anchored : Anchored before)
    (last : ∀ c ∈ before.getLast?, isBlank c = false) : Clear (before ++ rest) rest :=
  ⟨before, rfl, anchored, fun return_ => absurd (last '\r' return_) (by decide)⟩

theorem skip (text : List Char) : Clear text (skipBlanks text) := by
  obtain ⟨blanks, split, blank⟩ := exists_blanks text
  exact ⟨blanks, split, .of_steady fun c mem => steady_of_isBlank (blank c mem),
    fun _ => ahead_dropWhile isBlank text⟩

theorem token {table : TokenTable} (spelled : table.Spelled) {symbol : Symbol}
    (h : table.Token symbol text rest) : Clear text rest := by
  obtain ⟨blanks, written, token, rfl, blank, ⟨nonempty, entry, mem, _, listed⟩, same, _⟩ := h
  have letters : ∀ c ∈ written, Steady c ∧ isBlank c = false := by
    intro c inside
    have lowered : c.toLower ∈ lower token := same ▸ List.mem_map_of_mem inside
    obtain ⟨d, inside, alike⟩ := List.mem_map.mp lowered
    refine TokenTable.steady_of_spelling (TokenTable.contains_spelling_of_lower alike.symm ?_)
    have all := spelled entry mem _ listed
    rw [String.toList_ofList] at all
    exact List.all_eq_true.mp all d inside
  have written_ : written ≠ [] := by
    rintro rfl
    exact nonempty (List.map_eq_nil_iff.mp same.symm)
  refine of_last (.of_steady fun c inside => ?_) fun c last => ?_
  · exact (List.mem_append.mp inside).elim (fun inside => steady_of_isBlank (blank c inside))
      fun inside => (letters c inside).1
  · rw [List.getLast?_append_of_ne_nil _ written_] at last
    exact (letters c (List.mem_of_getLast? last)).2

theorem string {mark : Char} (mark_ : mark = '\'' ∨ mark = '"') (body rest : List Char) :
    Clear (mark :: (body ++ mark :: rest)) rest := by
  have split : mark :: (body ++ mark :: rest) = (mark :: body ++ [mark]) ++ rest := by simp
  rw [split]
  refine of_last (.of_quote mark_ _) fun c last => ?_
  rw [List.getLast?_concat, Option.mem_some] at last
  rw [← last]
  rcases mark_ with rfl | rfl <;> decide

theorem letter {c : Char} (h : Grammar.isLiteralChar c = true) : Clear (c :: rest) rest := by
  have steady : Steady c := by
    unfold Grammar.isLiteralChar Grammar.isNameChar at h
    simp only [Bool.or_eq_true, decide_eq_true_eq] at h
    rcases h with (name | rfl) | sign
    · exact steady_of_isAlphanumeric name
    · exact steady_of_narrow (by decide)
    · simp only [List.contains_iff_mem, List.mem_cons, List.not_mem_nil, or_false] at sign
      rcases sign with rfl | rfl | rfl | rfl | rfl <;> exact steady_of_narrow (by decide)
  refine ⟨[c], rfl, .of_steady (by simpa using steady), fun return_ => ?_⟩
  obtain rfl : c = '\r' := by simpa using return_
  rw [Grammar.isLiteralChar, isNameChar_of_isBlank (by decide)] at h
  exact absurd h (by decide)

/-- Readings with the tokens of both languages are clear. -/
theorem trailOf {table : TokenTable} (spelled : table.Spelled) : Grammar.TrailOf table Clear where
  refl := refl
  trans := trans
  skip := skip
  letter := letter
  token := token spelled
  string mark_ _ := string mark_ _ _

end Clear

/-! ### Lines -/

namespace Diagnostic

variable {text start more : List Char} {failure : Failure}

/-- The column of a diagnostic is at most the width of its line. -/
def CaretInLine (d : Diagnostic) : Prop :=
  d.column ≤ displayWidth d.line.toList

/-- The caret of a diagnostic stands under a character of its line, or just past the end. -/
def CaretAtPlace (d : Diagnostic) : Prop :=
  ∃ shown behind, d.line.toList = shown ++ behind ∧ displayWidth shown = d.column

/-- The last line is the end of a text. -/
theorem lastLine_suffix (text : List Char) : lastLine text <:+ text :=
  List.rtakeWhile_suffix (· ≠ '\n') text

theorem getLast?_lastLine (text : List Char) :
    (lastLine text).getLast? = text.getLast?.filter (· ≠ '\n') := by
  unfold lastLine
  rw [List.getLast?_reverse, List.head?_takeWhile, List.head?_reverse]

/-- Carriage returns are left out of a line as long as there are any at its end. -/
theorem exists_returns (line : List Char) :
    ∃ n, line = dropReturns line ++ List.replicate n '\r' ∧
      (n = 0 ↔ line.getLast? ≠ some '\r') := by
  refine ⟨(line.reverse.takeWhile (· = '\r')).length, ?_, ?_⟩
  · have same : line.reverse.takeWhile (· = '\r')
        = List.replicate (line.reverse.takeWhile (· = '\r')).length '\r' :=
      List.eq_replicate_of_mem fun c mem => by simpa using List.mem_takeWhile_imp mem
    have split := congrArg List.reverse
      (List.takeWhile_append_dropWhile (p := (· = '\r')) (l := line.reverse))
    rw [List.reverse_append, List.reverse_reverse, same, List.reverse_replicate] at split
    exact split.symm
  · rw [← List.head?_reverse, List.length_eq_zero_iff]
    cases line.reverse with
    | nil => simp
    | cons c front => simp [List.takeWhile_cons]

/-- What stands in front of other characters stays in the line. -/
theorem dropReturns_append (kept : start.getLast? ≠ some '\r' ∨ ∃ c ∈ more, c ≠ '\r') :
    dropReturns (start ++ more) = start ++ dropReturns more := by
  unfold dropReturns
  rw [List.reverse_append, List.dropWhile_append]
  split
  · -- All that stands behind is left out, so the last character in front has to stay.
    rename_i none
    have all : ∀ c ∈ more, c = '\r' := fun c mem => by
      simpa using List.dropWhile_eq_nil_iff.mp (List.isEmpty_iff.mp none) c (by simpa using mem)
    have last : start.getLast? ≠ some '\r' :=
      kept.resolve_right fun ⟨c, mem, other⟩ => other (all c mem)
    rw [List.isEmpty_iff.mp none, List.reverse_nil, List.append_nil]
    rw [← List.head?_reverse] at last
    cases reversed : start.reverse with
    | nil => rw [List.reverse_eq_nil_iff.mp reversed]; rfl
    | cons c front =>
      rw [reversed, List.head?_cons] at last
      rw [List.dropWhile_cons_of_neg (by simpa using last), ← reversed, List.reverse_reverse]
  · rw [List.reverse_append, List.reverse_reverse]

/-- A diagnostic by the text in front of its place. -/
theorem ofFailure_of_split (stage : Stage) {before : List Char}
    (split : text = before ++ failure.rest) :
    (ofFailure stage text failure).offset = before.length ∧
      (ofFailure stage text failure).column = displayWidth (lastLine before) ∧
      (ofFailure stage text failure).line.toList
        = dropReturns (lastLine before ++ failure.rest.takeWhile (· ≠ '\n')) := by
  have length : text.length - failure.rest.length = before.length := by
    rw [split, List.length_append, Nat.add_sub_cancel]
  have taken : text.take before.length = before := by
    rw [split, List.take_left]
  unfold ofFailure
  dsimp only
  rw [length, taken, String.toList_ofList]
  exact ⟨rfl, rfl, rfl⟩

/-- At the end of a text, the caret is moved by the carriage returns that are left out. -/
theorem caretInLine_iff_of_end (stage : Stage) (ended : failure.rest = []) :
    ((ofFailure stage text failure).CaretInLine ↔ text.getLast? ≠ some '\r') ∧
      ((ofFailure stage text failure).CaretInLine →
        (ofFailure stage text failure).CaretAtPlace) := by
  obtain ⟨-, column, line⟩ := ofFailure_of_split stage
    (show text = text ++ failure.rest by rw [ended, List.append_nil])
  rw [ended, List.takeWhile_nil, List.append_nil] at line
  obtain ⟨n, returns, none⟩ := exists_returns (lastLine text)
  have width : (ofFailure stage text failure).column
      = displayWidth (ofFailure stage text failure).line.toList + n := by
    rw [column, line, ← displayWidth_append_returns, ← returns]
  have last : (lastLine text).getLast? ≠ some '\r' ↔ text.getLast? ≠ some '\r' := by
    rw [getLast?_lastLine]
    cases text.getLast? with
    | none => simp
    | some c => by_cases feed : c = '\n' <;> simp [feed, Option.filter]
  have inside : (ofFailure stage text failure).CaretInLine ↔ n = 0 := by
    unfold CaretInLine
    omega
  rw [← last, ← none]
  refine ⟨inside, fun caret => ⟨_, [], (List.append_nil _).symm, ?_⟩⟩
  rw [width, inside.mp caret, Nat.add_zero]

/-- In front of other text, a reading that stops clear of it leaves the caret in the line. -/
theorem caretInLine_of_clear (stage : Stage) (clear : Clear text failure.rest)
    (more : failure.rest ≠ []) :
    (ofFailure stage text failure).CaretInLine ∧ (ofFailure stage text failure).CaretAtPlace ∧
      (ofFailure stage text failure).offset ≠ text.length := by
  obtain ⟨before, split, anchored, blank⟩ := clear
  obtain ⟨offset, column, line⟩ := ofFailure_of_split stage split
  have kept : (lastLine before).getLast? ≠ some '\r' ∨
      ∃ c ∈ failure.rest.takeWhile (· ≠ '\n'), c ≠ '\r' := by
    refine or_iff_not_imp_left.mpr fun returned => ?_
    rw [not_not, getLast?_lastLine, Option.filter_eq_some_iff] at returned
    have ahead := blank returned.1
    cases rest : failure.rest with
    | nil => exact absurd rest more
    | cons c tail =>
      rw [rest, ahead_cons] at ahead
      have feed : c ≠ '\n' := by
        rintro rfl
        exact absurd ahead (by decide)
      refine ⟨c, ?_, ?_⟩
      · rw [List.takeWhile_cons_of_pos (by simpa using feed)]
        exact List.mem_cons_self
      · rintro rfl
        exact absurd ahead (by decide)
  rw [dropReturns_append kept] at line
  obtain ⟨front, same⟩ := lastLine_suffix before
  have closed : Anchored (lastLine before) := .of_append (same ▸ anchored)
  refine ⟨?_, ⟨_, _, line, column.symm⟩, ?_⟩
  · rw [CaretInLine, column, line]
    exact displayWidth_le_append closed _
  · have := List.length_pos_iff.mpr more
    rw [offset, split, List.length_append]
    omega

/-- The caret of a reading that stops clear of what follows, or at the end of a text, stands in
the line unless that is the end and carriage returns are left out there. In the line it stands
under a character, or just past the end. -/
theorem caretInLine_iff (stage : Stage) (stops : failure.rest = [] ∨ Clear text failure.rest) :
    ((ofFailure stage text failure).CaretInLine ↔
        ¬((ofFailure stage text failure).offset = text.length ∧ text.getLast? = some '\r')) ∧
      ((ofFailure stage text failure).CaretInLine →
        (ofFailure stage text failure).CaretAtPlace) := by
  by_cases ended : failure.rest = []
  · have offset : (ofFailure stage text failure).offset = text.length := by
      show text.length - failure.rest.length = _
      rw [ended, List.length_nil, Nat.sub_zero]
    rw [and_iff_right offset]
    exact caretInLine_iff_of_end stage ended
  · obtain ⟨inside, place, offset⟩ :=
      caretInLine_of_clear stage (stops.resolve_left ended) ended
    exact ⟨iff_of_true inside fun atEnd => offset atEnd.1, fun _ => place⟩

/-- A line has no line feed, and its place is in the text. -/
theorem line_of_ofFailure (stage : Stage) (text : List Char) (failure : Failure) :
    (ofFailure stage text failure).offset ≤ text.length ∧
      '\n' ∉ (ofFailure stage text failure).line.toList := by
  refine ⟨Nat.sub_le _ _, ?_⟩
  unfold ofFailure dropReturns
  rw [String.toList_ofList, List.mem_reverse]
  intro mem
  have mem := (List.dropWhile_sublist _).mem mem
  rw [List.mem_reverse, List.mem_append, lastLine, List.mem_reverse] at mem
  rcases mem with mem | mem
  · exact absurd (List.mem_takeWhile_imp mem) (by decide)
  · exact absurd (List.mem_takeWhile_imp mem) (by decide)

end Diagnostic

namespace Editor

/-- The tokens of both languages are made of the characters listed. -/
theorem spelled_table (offset : Offset) (mode : Mode) :
    (({ offset } : Editor).table mode).Spelled := by
  cases mode
  · exact TokenTable.spelled_dsl
  · exact TokenTable.spelled_cnl

/-- With the tables of both languages and dates in any offset, the place of a diagnostic is in
the text, its line is one line, and its column is at most the width of the line, unless reading
stops at the end of a text that ends in a carriage return. There the caret stands beyond the
line. Elsewhere it stands under a character of the line, or just past the end. -/
theorem diagnostic_caret_iff (offset : Offset) (clock : Clock) (text : String) (mode : Mode)
    {d : Diagnostic}
    (rejected : ((({ offset } : Editor).parseRule text mode).run clock).1 = .error d ∨
      ((({ offset } : Editor).parseActions text mode).run clock).1 = .error d) :
    d.offset ≤ text.toList.length ∧ '\n' ∉ d.line.toList ∧
      (d.CaretInLine ↔
        ¬(d.offset = text.toList.length ∧ text.toList.getLast? = some '\r')) ∧
      (d.CaretInLine → d.CaretAtPlace) := by
  have trail := Clear.trailOf (spelled_table offset mode)
  have made : ∃ stage failure, (failure.rest = [] ∨ Clear text.toList failure.rest) ∧
      Diagnostic.ofFailure stage text.toList failure = d := by
    rcases rejected with rejected | rejected
    · obtain ⟨failure, failed, same⟩ := parseRule_eq_error_iff.mp rejected
      exact ⟨.rule, failure, (Grammar.rule_walks trail rfl).complete failed, same⟩
    · obtain ⟨failure, failed, same⟩ := parseActions_eq_error_iff.mp rejected
      exact ⟨.action, failure, (Grammar.calls_walks trail rfl).complete failed, same⟩
  obtain ⟨stage, failure, stops, rfl⟩ := made
  obtain ⟨inside, line⟩ := Diagnostic.line_of_ofFailure stage text.toList failure
  exact ⟨inside, line, Diagnostic.caretInLine_iff stage stops⟩

/-- A value that is missing in the second line of a text. Its words are twice as wide. -/
theorem diagnostic_caret_second_line :
    let text := "楼层大于1\r\n并且标题包含x"
    let clock : Clock := .fixed ⟨0, 0, .utc, by decide⟩
    ∃ d, ((({} : Editor).parseRule text .cnl).run clock).1 = .error d ∧ d.offset = 13 ∧
      d.column = 12 ∧ '\n' ∉ d.line.toList ∧ d.CaretInLine ∧ d.CaretAtPlace := by
  have rejected : ((({} : Editor).parseRule "楼层大于1\r\n并且标题包含x" .cnl).run
      (.fixed ⟨0, 0, .utc, by decide⟩)).1 = .error (Diagnostic.ofFailure .rule
        "楼层大于1\r\n并且标题包含x".toList ⟨['x'], some (.word .literal), true⟩) :=
    parseRule_eq_error_iff.mpr ⟨_, by decide +kernel, rfl⟩
  obtain ⟨-, line, inside, place⟩ := diagnostic_caret_iff _ _ _ .cnl (.inl rejected)
  have inside := inside.mpr (by decide +kernel)
  exact ⟨_, rejected, by decide +kernel, by decide +kernel, line, inside, place inside⟩

/-- Texts that stop short behind a carriage return: the caret is one column beyond the line. -/
theorem caret_beyond_line :
    let clock : Clock := .fixed ⟨0, 0, .utc, by decide⟩
    (∃ d, ((({} : Editor).parseRule "floor >\r" .dsl).run clock).1 = .error d ∧
      d.line = "floor >" ∧ displayWidth d.line.toList = 7 ∧ d.column = 8) ∧
    ∃ d, ((({} : Editor).parseActions "delete\r" .dsl).run clock).1 = .error d ∧
      d.line = "delete" ∧ displayWidth d.line.toList = 6 ∧ d.column = 7 := by
  have rule : ((({} : Editor).parseRule "floor >\r" .dsl).run
      (.fixed ⟨0, 0, .utc, by decide⟩)).1 = .error (Diagnostic.ofFailure .rule
        "floor >\r".toList ⟨[], some (.word .literal), true⟩) :=
    parseRule_eq_error_iff.mpr ⟨_, by decide +kernel, rfl⟩
  have actions : ((({} : Editor).parseActions "delete\r" .dsl).run
      (.fixed ⟨0, 0, .utc, by decide⟩)).1 = .error (Diagnostic.ofFailure .action
        "delete\r".toList ⟨[], some (.requirement .openingParen), true⟩) :=
    parseActions_eq_error_iff.mpr ⟨_, by decide +kernel, rfl⟩
  exact ⟨⟨_, rule, by decide +kernel, by decide +kernel, by decide +kernel⟩,
    _, actions, by decide +kernel, by decide +kernel, by decide +kernel⟩

end Editor

end ForumModeration
