import ForumModeration.Proofs.Editor.Nesting
import ForumModeration.Proofs.Grammar.Moments

/-!
# `ForumModeration.Proofs.Editor.Moments`: dates and relative times as values of conditions

A moment is written in many ways, and several limits stand between what is written and the
instant that it means. The two results here say what comes of it, with the tables of both
languages and dates in any offset:

* `relativeTime_exact`: an amount of a unit is subtracted from the present as integers are. It
  is refused exactly if the year would not have four digits.
* `dates_agree`: all forms of a date, bare or between quotes, mean one instant if the calendar
  has the date. If not, it is refused where it stands bare, and stays a string between quotes.

A condition with such a value may be all of a text or stand in front of what may follow a value
(`ReadsCondition`, `RefusesCondition`).
-/

set_option autoImplicit false

namespace ForumModeration.Editor

open Text

theorem comparesPlainly_table (offset : Offset) (mode : Mode) :
    (({ offset } : Editor).table mode).ComparesPlainly := by
  cases mode
  · exact TokenTable.comparesPlainly_dsl
  · exact TokenTable.comparesPlainly_cnl

theorem countsPlainly_table (offset : Offset) (mode : Mode) :
    (({ offset } : Editor).table mode).CountsPlainly := by
  cases mode
  · exact TokenTable.countsPlainly_dsl
  · exact TokenTable.countsPlainly_cnl

/-- A text starts with a condition, up to `rest`. It is read as the condition at any level of
nesting, and by parsing if it is all of the text. -/
structure ReadsCondition (editor : Editor) (mode : Mode) (clock : Clock) (text : String)
    (condition : Condition) (rest : List Char) : Prop where
  nested : ∀ depth, (editor.grammar mode (clock.readings 0)).condition depth text.toList
    = .ok (.condition condition, rest)
  whole : skipBlanks rest = [] →
    ((editor.parseRule text mode).run clock).1 = .ok (.condition condition)

/-- A text starts with a condition that is refused for good in front of `stop`, at any level of
nesting and by parsing, because something else is expected there. -/
structure RefusesCondition (editor : Editor) (mode : Mode) (clock : Clock) (text : String)
    (expected : String) (stop : List Char) : Prop where
  nested : ∃ what : Requirement, what.describe = expected ∧ ∀ depth,
    (editor.grammar mode (clock.readings 0)).condition depth text.toList
      = .error ⟨stop, some (.requirement what), true⟩
  whole : ∃ d, ((editor.parseRule text mode).run clock).1 = .error d ∧
    d.trouble = .expected expected ∧ text.toList.drop d.offset = stop

section

variable {offset : Offset} {mode : Mode} {clock : Clock} {text : String} {value rest : List Char}
  {field : Field} {operator : Operator}

/-- What is read as the value of a condition is read in it. -/
theorem readsCondition_of_costs {v : Value}
    (comparison : (({ offset } : Editor).table mode).Comparison field operator text.toList value)
    (special : Ahead (startsNoToken · = true) (skipBlanks value))
    (read : Grammar.Costs ((({ offset } : Editor).grammar mode (clock.readings 0)).literal
      field.isTime) 0 value v rest)
    (membership : operator = .among → v.isList = true) :
    ReadsCondition { offset } mode clock text ⟨field, operator, v⟩ rest := by
  have condition := comparison.costs rfl (legible_table offset mode) (contained_table offset mode)
    (opensPlainly_table offset mode) (comparesPlainly_table offset mode) special read membership
  refine ⟨fun depth => condition.reads depth (Nat.zero_le _), fun ended => ?_⟩
  exact parseRule_eq_ok_iff.mpr
    (Grammar.rule_of_condition rfl (legible_table offset mode) comparison condition ended)

/-- Where the value of a condition is refused for good, the condition is. -/
theorem refusesCondition_of_literal {what : Requirement} {stop : List Char}
    (comparison : (({ offset } : Editor).table mode).Comparison field operator text.toList value)
    (special : Ahead (startsNoToken · = true) (skipBlanks value))
    (refused : ∀ depth, (({ offset } : Editor).grammar mode (clock.readings 0)).literal
      field.isTime depth value = .error ⟨stop, some (.requirement what), true⟩)
    (inside : stop <:+ value) :
    RefusesCondition { offset } mode clock text what.describe stop := by
  have condition := fun depth => comparison.refused rfl (legible_table offset mode)
    (contained_table offset mode) (opensPlainly_table offset mode)
    (comparesPlainly_table offset mode) special (refused depth)
  refine ⟨⟨what, rfl, condition⟩, _, parseRule_eq_error_iff.mpr ⟨_, Grammar.rule_of_condition_error
    rfl (legible_table offset mode) comparison (condition _), rfl⟩, rfl, ?_⟩
  exact (List.suffix_iff_eq_drop.mp (inside.trans comparison.suffix)).symm

/-! ### Relative times -/

/-- With the tables of both languages and dates in any offset, at a clock outside leap seconds:
digits that stand for at most 2⁶³ - 1, a unit and perhaps the word for "ago" behind a field and
an operator. A day has 86400 seconds, an hour 3600 and a minute 60. Let the amount of the unit be
taken off the clock's seconds, as integers. If the offset shows the result in a year from 0 to
9999, the value of the condition is the instant with that many seconds, the clock's nanoseconds
and the parser's offset. Otherwise the condition is refused and parsing asks for a time offset
within range. -/
theorem relativeTime_exact {unit : TimeUnit} {length amount : Nat}
    (noLeap : (clock.readings 0).isLeap = false)
    (comparison : (({ offset } : Editor).table mode).Comparison field operator text.toList value)
    (phrase : (({ offset } : Editor).table mode).AmountPhrase (skipBlanks value) unit amount rest)
    (lasts : (unit, length) ∈ [(TimeUnit.day, 86400), (.hour, 3600), (.minute, 60), (.second, 1)])
    (bounded : amount ≤ 9223372036854775807)
    (ends : Grammar.Ends (({ offset } : Editor).table mode) rest) :
    let now := clock.readings 0
    let seconds : Int := now.seconds - amount * length
    let year := (LocalTime.ofSeconds (seconds + offset.seconds) now.nanos).date.year
    (0 ≤ year ∧ year ≤ 9999 → operator ≠ .among → ∃ instant : Instant,
      instant.seconds = seconds ∧ instant.nanos = now.nanos ∧ instant.offset = offset ∧
        ReadsCondition { offset } mode clock text ⟨field, operator, .instant instant⟩ rest) ∧
    (¬(0 ≤ year ∧ year ≤ 9999) →
      RefusesCondition { offset } mode clock text "time offset within range" rest) := by
  obtain rfl : unit.seconds = length := by
    have own : ∀ entry ∈ [(TimeUnit.day, 86400), (.hour, 3600), (.minute, 60), (.second, 1)],
        entry.1.seconds = entry.2 := by decide
    exact own _ lasts
  intro now seconds year
  obtain ⟨c, tail, start, digit⟩ := phrase.start
  have special : Ahead (startsNoToken · = true) (skipBlanks value) := by
    rw [start]
    exact ahead_cons.mpr (startsNoToken_of_isDigit digit)
  have counted : ∀ instant, (({ offset } : Editor).grammar mode now).backFromNow? unit amount
      = some instant ↔ instant.seconds = seconds ∧ instant.nanos = now.nanos ∧
        instant.offset = offset ∧ Grammar.hasShortYear instant = true :=
    fun instant => Grammar.backFromNow?_eq_some_iff noLeap
  constructor
  · intro short single
    have noLeap' := Instant.nanos_lt_of_noLeap noLeap
    let instant : Instant :=
      ⟨seconds, now.nanos, offset, Instant.isPointOfTime_of_shortYear noLeap' short⟩
    have shown : Grammar.hasShortYear instant = true := Grammar.hasShortYear_iff.mpr short
    refine ⟨instant, rfl, rfl, rfl, readsCondition_of_costs comparison special ?_
      fun among => absurd among single⟩
    exact Grammar.costs_of_amountPhrase rfl (legible_table offset mode)
      (contained_table offset mode) (countsPlainly_table offset mode) phrase bounded ends
      ((counted instant).mpr ⟨rfl, rfl, rfl, shown⟩)
  · intro long
    have none : (({ offset } : Editor).grammar mode now).backFromNow? unit amount = none := by
      by_contra found
      obtain ⟨instant, found⟩ := Option.ne_none_iff_exists'.mp found
      obtain ⟨hseconds, hnanos, hoffset, short⟩ := (counted instant).mp found
      rw [Grammar.hasShortYear_iff, Instant.localTime, hseconds, hnanos, hoffset] at short
      exact long short
    have refused : ∀ depth,
        (({ offset } : Editor).grammar mode now).literal field.isTime depth value
          = .error ⟨rest, some (.requirement .timeInRange), true⟩ := by
      intro depth
      rw [Grammar.literal_of_amountPhrase rfl (legible_table offset mode)
        (contained_table offset mode) (countsPlainly_table offset mode) phrase bounded ends, none]
      rfl
    exact refusesCondition_of_literal comparison special refused
      (phrase.suffix.trans (List.dropWhile_suffix _))

end

/-- A comparison in the compact language, up to its value. -/
theorem comparison_createTime (value : List Char) :
    TokenTable.dsl.Comparison .createTime .gt (" create_time > ".toList ++ value)
      (' ' :: value) := by
  have field : TokenTable.dsl.Token (.field .createTime) (" create_time > ".toList ++ value)
      (' ' :: '>' :: ' ' :: value) :=
    @TokenTable.Token.spaced _ _ _ "create_time".toList (by decide) (by decide)
      fun _ => ahead_cons.mpr (by decide)
  have operator : TokenTable.dsl.Token (.operator .gt) (' ' :: '>' :: ' ' :: value)
      (' ' :: value) :=
    @TokenTable.Token.spaced _ _ _ ['>'] (by decide) (by decide) fun ends => absurd ends (by decide)
  exact ⟨_, field, operator⟩

/-- A condition on times that lie an amount of a unit back. -/
def longAgo (amount : Nat) (unit : Char) : List Char :=
  " create_time > ".toList ++ (digits amount ++ ' ' :: unit :: " ago".toList)

theorem comparison_longAgo (amount : Nat) (unit : Char) :
    TokenTable.dsl.Comparison .createTime .gt (String.ofList (longAgo amount unit)).toList
      (' ' :: (digits amount ++ ' ' :: unit :: " ago".toList)) := by
  have spelled : (String.ofList (longAgo amount unit)).toList = longAgo amount unit :=
    String.toList_ofList
  rw [spelled]
  exact comparison_createTime _

theorem amountPhrase_longAgo (amount : Nat) {unit : TimeUnit} {letter : Char}
    (listed : ∃ entry ∈ TokenTable.dsl.entries, entry.1 = .unit unit ∧
      String.ofList [letter] ∈ entry.2) :
    TokenTable.dsl.AmountPhrase (skipBlanks (' ' :: (digits amount ++ ' ' :: letter ::
      " ago".toList))) unit amount [] := by
  have start : skipBlanks (' ' :: (digits amount ++ ' ' :: letter :: " ago".toList))
      = digits amount ++ ' ' :: letter :: " ago".toList := by
    obtain ⟨c, tail, start, digit⟩ :=
      (digits_digits amount).start (' ' :: letter :: " ago".toList)
    rw [skipBlanks_cons_of_blank (by decide), start,
      skipBlanks_eq_of_not_blank (isBlank_eq_false_of_isDigit digit)]
  have unit_ : TokenTable.dsl.Token (.unit unit) (' ' :: letter :: " ago".toList) " ago".toList :=
    @TokenTable.Token.spaced _ _ _ [letter] listed (by simp) fun _ => ahead_cons.mpr (by decide)
  have ago_ : TokenTable.dsl.Token .ago " ago".toList [] :=
    @TokenTable.Token.spaced _ _ _ "ago".toList (by decide) (by decide) fun _ => ahead_nil _
  have phrase := TokenTable.AmountPhrase.ago (digits_digits amount) unit_ ago_
  rwa [numberOf_digits, ← start] at phrase

/-- In the year 2023, three days, three hours, three minutes and three seconds are counted back.
So many days that the calendar has no year for them are refused. -/
theorem relativeTime_exact_longAgo :
    let clock := Clock.fixed ⟨1700000000, 5, .utc, by decide⟩
    let read := fun (text : List Char) =>
      ((({} : Editor).parseRule (String.ofList text) .dsl).run clock).1
    (∀ entry ∈ [('d', 1699740800), ('h', 1699989200), ('m', 1699999820), ('s', 1699999997)],
      ∃ instant : Instant, instant.seconds = entry.2 ∧ instant.nanos = 5 ∧
        read (longAgo 3 entry.1) = .ok (.condition ⟨.createTime, .gt, .instant instant⟩)) ∧
    ∃ d, read (longAgo 9223372036854775807 'd') = .error d ∧
      d.trouble = .expected "time offset within range" := by
  intro clock read
  constructor
  · have back : ∀ unit letter length, (∃ entry ∈ TokenTable.dsl.entries,
          entry.1 = .unit unit ∧ String.ofList [letter] ∈ entry.2) →
        (unit, length) ∈ [(TimeUnit.day, 86400), (.hour, 3600), (.minute, 60), (.second, 1)] →
        (let year := (LocalTime.ofSeconds (1700000000 - 3 * (length : Nat) + 28800) 5).date.year
         0 ≤ year ∧ year ≤ 9999) →
        ∃ instant : Instant, instant.seconds = 1700000000 - 3 * (length : Nat) ∧
          instant.nanos = 5 ∧
          read (longAgo 3 letter) = .ok (.condition ⟨.createTime, .gt, .instant instant⟩) := by
      intro unit letter length listed lasts short
      obtain ⟨inRange, -⟩ := @relativeTime_exact .china .dsl clock _ _ [] _ _ _ _ _ (by decide)
        (comparison_longAgo 3 letter) (amountPhrase_longAgo 3 listed) lasts (by decide) (.inl rfl)
      obtain ⟨instant, seconds, nanos, -, reads⟩ := inRange short (by decide)
      exact ⟨instant, seconds, nanos, reads.whole rfl⟩
    simp only [List.forall_mem_cons]
    exact ⟨back .day 'd' 86400 (by decide) (by decide) (by decide +kernel),
      back .hour 'h' 3600 (by decide) (by decide) (by decide +kernel),
      back .minute 'm' 60 (by decide) (by decide) (by decide +kernel),
      back .second 's' 1 (by decide) (by decide) (by decide +kernel), List.forall_mem_nil _⟩
  · obtain ⟨-, outOfRange⟩ := @relativeTime_exact .china .dsl clock _ _ [] _ _ _ 86400 _ (by decide)
      (comparison_longAgo _ 'd') (@amountPhrase_longAgo _ .day 'd' (by decide)) (by decide)
      (Nat.le_refl _) (.inl rfl)
    obtain ⟨d, failed, trouble, -⟩ := (outOfRange (by decide +kernel)).whole
    exact ⟨d, failed, trouble⟩

/-! ### Dates -/

/-- With the tables of both languages and dates in any offset: the local times that dates with
four digits for the year and any fraction of a second can spell. If the calendar has the date and
the time of day has its hour below 24 and its minute and second below 60, one instant, with this
local time in the parser's offset, is the value of every condition on a field of time with a
literal that spells the time, in whatever form and language, bare or between quotes. If not, bare
dates are refused in front of their first characters, where parsing asks for a valid calendar
date, and what stands between quotes is a string. -/
theorem dates_agree (offset : Offset) (time : LocalTime)
    (short : 0 ≤ time.date.year ∧ time.date.year ≤ 9999) (fraction : time.nanos < 1000000000) :
    let existing := time.date.Exists ∧ time.hour < 24 ∧ time.minute < 60 ∧ time.second < 60
    (existing → ∃ instant : Instant, instant.localTime = time ∧ instant.offset = offset ∧
      ∀ (mode : Mode) (clock : Clock) (text : String) (value rest : List Char) (field : Field)
        (operator : Operator) (held : Option (List Char)),
        (({ offset } : Editor).table mode).Comparison field operator text.toList value →
        field.isTime = true → operator ≠ .among → DateLiteral time (skipBlanks value) held rest →
        Grammar.Ends (({ offset } : Editor).table mode) rest →
        ReadsCondition { offset } mode clock text ⟨field, operator, .instant instant⟩ rest) ∧
    (¬existing → ∀ (mode : Mode) (clock : Clock) (text : String) (value rest : List Char)
        (field : Field) (operator : Operator),
        (({ offset } : Editor).table mode).Comparison field operator text.toList value →
        field.isTime = true → Grammar.Ends (({ offset } : Editor).table mode) rest →
        (DateLiteral time (skipBlanks value) none rest →
          RefusesCondition { offset } mode clock text "valid calendar date" (skipBlanks value)) ∧
        ∀ string, operator ≠ .among → DateLiteral time (skipBlanks value) (some string) rest →
          ReadsCondition { offset } mode clock text
            ⟨field, operator, .string (String.ofList string)⟩ rest) := by
  intro existing
  constructor
  · rintro ⟨date, hour, minute, second⟩
    obtain ⟨instant, found⟩ := Instant.exists_ofLocal?
      ⟨date, hour, minute, second, .inl fraction⟩ fraction short offset
    obtain ⟨shown, offset_⟩ := Instant.localTime_ofLocal? found
    refine ⟨instant, shown, offset_, ?_⟩
    intro mode clock text value rest field operator held comparison isTime single literal ends
    refine readsCondition_of_costs comparison literal.special ?_ fun among => absurd among single
    rw [isTime]
    exact literal.costs rfl (legible_table offset mode) ends found
  · intro missing mode clock text value rest field operator comparison isTime ends
    have none : Instant.ofLocal? time offset = none :=
      if_neg fun ⟨date, hour, minute, second, _⟩ => missing ⟨date, hour, minute, second⟩
    constructor
    · intro literal
      exact refusesCondition_of_literal comparison literal.special
        (literal.refused rfl (legible_table offset mode) ends none field.isTime)
        (List.dropWhile_suffix _)
    · intro string single literal
      refine readsCondition_of_costs comparison literal.special ?_ fun among => absurd among single
      rw [isTime]
      exact literal.costs_string none

/-- The last second but one of 29 February of a year, and half a second. -/
def leapDay (year : Nat) : LocalTime :=
  ⟨⟨year, 2, 29⟩, 23, 59, 58, 500000000⟩

/-- Digits on a clock or in a calendar. -/
theorem shortNumber_of_digits {written : List Char} {n : Nat}
    (length : 1 ≤ written.length ∧ written.length ≤ 2)
    (digits : written.all Char.isDigit = true ∧ numberOf written = n) :
    ShortNumber 1 2 written n :=
  ⟨length.1, length.2, List.all_eq_true.mp digits.1, digits.2⟩

/-- The numbers that the date is written with. -/
theorem shortNumber_leapDay :
    ShortNumber 1 2 ['2'] 2 ∧ ShortNumber 1 2 ['2', '9'] 29 ∧ ShortNumber 1 2 ['2', '3'] 23 ∧
      ShortNumber 1 2 ['5', '9'] 59 ∧ ShortNumber 1 2 ['5', '8'] 58 :=
  ⟨shortNumber_of_digits (by decide) (by decide), shortNumber_of_digits (by decide) (by decide),
    shortNumber_of_digits (by decide) (by decide), shortNumber_of_digits (by decide) (by decide),
    shortNumber_of_digits (by decide) (by decide)⟩

theorem dateText_leapDay {year : List Char} {y : Nat} (year_ : ShortNumber 4 4 year y) :
    DateText (year ++ "/2/29T23:59:58.5".toList) (leapDay y) := by
  obtain ⟨month, day, hour, minute, second⟩ := shortNumber_leapDay
  have fraction : FractionText ['.', '5'] 500000000 :=
    @FractionText.digits ['5'] (by simp) (by simp)
  have clock : ColonTimeText "T23:59:58.5".toList (23, 59, 58, 500000000) :=
    @ColonTimeText.mk ['T'] _ _ _ _ _ _ _ _ (.inl rfl) hour minute second fraction
  exact @DateText.dashedTime _ _ _ _ '/' '/' _ _ _ _ year_ (.inr rfl) month (.inr rfl) day clock

theorem dateText_leapDay_chinese {year : List Char} {y : Nat} (year_ : ShortNumber 4 4 year y) :
    DateText (year ++ "年2月29日 23时59分58.50秒".toList) (leapDay y) := by
  obtain ⟨month, day, hour, minute, second⟩ := shortNumber_leapDay
  have fraction : FractionText ['.', '5', '0'] 500000000 :=
    @FractionText.digits ['5', '0'] (by simp) (by simp)
  have clock : ChineseTimeText " 23时59分58.50秒".toList (23, 59, 58, 500000000) :=
    @ChineseTimeText.seconds [' '] _ _ _ _ _ _ _ _ isBlank_of_mem_space hour minute second
      fraction
  exact @DateText.chineseTime _ _ _ _ _ _ _ _ year_ month day clock

/-- A comparison with the date in the compact language. -/
def slashed (year : List Char) : List Char :=
  " create_time > ".toList ++ (year ++ "/2/29T23:59:58.5".toList)

/-- The date in Chinese with a blank behind it. -/
def padding (year : List Char) : List Char :=
  year ++ "年2月29日 23时59分58.50秒".toList ++ [' ']

/-- A comparison in Chinese with the date between quotes. -/
def quotes (year : List Char) : List Char :=
  "创建时间>".toList ++ '\'' :: (padding year ++ ['\''])

theorem comparison_slashed (year : List Char) : TokenTable.dsl.Comparison .createTime .gt
    (String.ofList (slashed year)).toList (' ' :: (year ++ "/2/29T23:59:58.5".toList)) := by
  have spelled : (String.ofList (slashed year)).toList = slashed year := String.toList_ofList
  rw [spelled]
  exact comparison_createTime _

theorem comparison_quotes (year : List Char) : TokenTable.cnl.Comparison .createTime .gt
    (String.ofList (quotes year)).toList ('\'' :: (padding year ++ ['\''])) := by
  have spelled : (String.ofList (quotes year)).toList = quotes year := String.toList_ofList
  rw [spelled]
  have field : TokenTable.cnl.Token (.field .createTime) (quotes year)
      ('>' :: '\'' :: (padding year ++ ['\''])) :=
    @TokenTable.Token.of_spelling _ _ _ "创建时间".toList _ (by decide) (by decide) rfl
      fun ends => absurd ends (by decide)
  have operator : TokenTable.cnl.Token (.operator .gt) ('>' :: '\'' :: (padding year ++ ['\'']))
      ('\'' :: (padding year ++ ['\''])) :=
    @TokenTable.Token.of_spelling _ _ _ ['>'] ['>'] (by decide) (by decide) rfl
      fun ends => absurd ends (by decide)
  exact ⟨_, field, operator⟩

theorem dateLiteral_slashed {year : List Char} {y : Nat} (year_ : ShortNumber 4 4 year y) :
    DateLiteral (leapDay y) (skipBlanks (' ' :: (year ++ "/2/29T23:59:58.5".toList))) none [] := by
  have spelled := dateText_leapDay year_
  obtain ⟨c, tail, start, digit⟩ := spelled.digit
  have literal := @DateLiteral.bare _ _ [] spelled
  rw [List.append_nil] at literal
  rwa [skipBlanks_cons_of_blank (by decide), start,
    skipBlanks_eq_of_not_blank (isBlank_eq_false_of_isDigit digit), ← start]

theorem dateLiteral_quotes {year : List Char} {y : Nat} (year_ : ShortNumber 4 4 year y)
    (plain : (padding year).all (fun c => c ≠ '\'' && c ≠ '\\') = true) :
    DateLiteral (leapDay y) (skipBlanks ('\'' :: (padding year ++ ['\''])))
      (some (padding year)) [] := by
  have body : QuotedBody '\'' (padding year) (padding year) :=
    .self fun c mem => by simpa using List.all_eq_true.mp plain c mem
  rw [skipBlanks_eq_of_not_blank (by decide)]
  exact @DateLiteral.quoted _ _ _ [] _ [' '] _ (.inl rfl) (List.forall_mem_nil _)
    (dateText_leapDay_chinese year_) isBlank_of_mem_space body

/-- The leap day of 2024 is read as one instant in both forms. There was none in 2023. -/
theorem dates_agree_leapDay :
    let clock := Clock.fixed ⟨0, 0, .utc, by decide⟩
    let editor : Editor := {}
    let read := fun (text : List Char) mode =>
      ((editor.parseRule (String.ofList text) mode).run clock).1
    (∃ instant : Instant, instant.localTime = leapDay 2024 ∧
      read (slashed "2024".toList) .dsl
        = .ok (.condition ⟨.createTime, .gt, .instant instant⟩) ∧
      read (quotes "2024".toList) .cnl
        = .ok (.condition ⟨.createTime, .gt, .instant instant⟩)) ∧
    (∃ d, read (slashed "2023".toList) .dsl = .error d ∧
      d.trouble = .expected "valid calendar date") ∧
    read (quotes "2023".toList) .cnl = .ok (.condition ⟨.createTime, .gt,
      .string (String.ofList (padding "2023".toList))⟩) := by
  intro clock editor read
  have year : ShortNumber 4 4 "2024".toList 2024 := ⟨by decide, by decide, by simp, by decide⟩
  have year' : ShortNumber 4 4 "2023".toList 2023 := ⟨by decide, by decide, by simp, by decide⟩
  obtain ⟨found, -⟩ := dates_agree .china (leapDay 2024) (by decide) (by decide)
  obtain ⟨-, missing⟩ := dates_agree .china (leapDay 2023) (by decide) (by decide)
  obtain ⟨instant, shown, -, agree⟩ := found (by decide)
  refine ⟨⟨instant, shown, ?_, ?_⟩, ?_, ?_⟩
  · exact (agree .dsl clock _ _ _ _ _ _ (comparison_slashed _) rfl (by decide)
      (dateLiteral_slashed year) (.inl rfl)).whole rfl
  · exact (agree .cnl clock _ _ _ _ _ _ (comparison_quotes _) rfl (by decide)
      (dateLiteral_quotes year (by decide)) (.inl rfl)).whole rfl
  · obtain ⟨refused, -⟩ :=
      missing (by decide) .dsl clock _ _ [] _ _ (comparison_slashed _) rfl (.inl rfl)
    obtain ⟨d, failed, trouble, -⟩ := (refused (dateLiteral_slashed year')).whole
    exact ⟨d, failed, trouble⟩
  · obtain ⟨-, stays⟩ :=
      missing (by decide) .cnl clock _ _ [] _ _ (comparison_quotes _) rfl (.inl rfl)
    exact (stays _ (by decide) (dateLiteral_quotes year' (by decide))).whole rfl

end ForumModeration.Editor
