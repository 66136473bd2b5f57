import ForumModeration.Proofs.Grammar.Conditions

/-!
# `ForumModeration.Proofs.Grammar.Moments`: which moments can be read

An amount of a unit is counted back from the present under three limits: the span has to fit
64 bits, the result has to be a point of time, and its year has to have four digits. Only the
last one counts (`backFromNow?_eq_some_iff`), because points of time go far beyond the years of
four digits and spans go far beyond points of time. For the same reason an existing date with
such a year is an instant in every offset (`Instant.exists_ofLocal?`).

* `literal_of_amountPhrase`: an amount of a unit is taken as a relative time, whether it can be
  counted back or not.
* `DateLiteral.costs`, `DateLiteral.costs_string`, `DateLiteral.refused`: what becomes of dates and
  of dates between quotes, whether the calendar has them or not.
-/

set_option autoImplicit false

namespace ForumModeration

open Text

/-! ### Years of four digits -/

/-- The days of the years of four digits, with room to spare. -/
theorem Date.dayNumber_of_shortYear {date : Date} (existing : date.Exists)
    (short : 0 ≤ date.year ∧ date.year ≤ 9999) :
    -1000000 ≤ date.dayNumber ∧ date.dayNumber ≤ 4000000 := by
  have bounds := existing.bounds
  unfold Date.dayNumber
  split <;> simp only <;> omega

/-- A local time in a year of four digits is a point of time, in whatever offset it is. -/
theorem LocalTime.isPointOfTime {time : LocalTime} (existing : time.Exists)
    (noLeap : time.nanos < 1000000000)
    (short : 0 ≤ time.date.year ∧ time.date.year ≤ 9999) (offset : Offset) :
    IsPointOfTime (time.seconds - offset.seconds) time.nanos := by
  obtain ⟨date, hour, minute, second, _⟩ := existing
  have days := Date.dayNumber_of_shortYear date short
  have span := offset.lt_day
  unfold LocalTime.seconds
  exact ⟨by omega, by omega, .inl noLeap⟩

namespace Instant

/-- Dates of the calendar are found, if their years have four digits. -/
theorem exists_ofLocal? {time : LocalTime} (existing : time.Exists)
    (noLeap : time.nanos < 1000000000)
    (short : 0 ≤ time.date.year ∧ time.date.year ≤ 9999) (offset : Offset) :
    ∃ instant, ofLocal? time offset = some instant := by
  refine ⟨⟨_, _, offset, time.isPointOfTime existing noLeap short offset⟩, ?_⟩
  rw [ofLocal?, if_pos existing]
  exact dif_pos _

/-- Outside a leap second, going back is subtraction. -/
theorem before?_of_noLeap {instant : Instant} (noLeap : instant.isLeap = false) (span : Nat) :
    instant.before? span = ofUnix? (instant.seconds - span) instant.nanos instant.offset := by
  by_cases none : span = 0
  · rw [before?, if_pos none, none, Int.natCast_zero, Int.sub_zero, ofUnix?_seconds]
  · rw [before?, if_neg none, noLeap, if_neg Bool.false_ne_true]

/-- An instant is a point of time, if its offset shows it in a year of four digits. -/
theorem isPointOfTime_of_shortYear {seconds : Int} {nanos : Nat} {offset : Offset}
    (noLeap : nanos < 1000000000)
    (short : 0 ≤ (LocalTime.ofSeconds (seconds + offset.seconds) nanos).date.year ∧
      (LocalTime.ofSeconds (seconds + offset.seconds) nanos).date.year ≤ 9999) :
    IsPointOfTime seconds nanos := by
  have point := LocalTime.isPointOfTime (LocalTime.exists_ofSeconds _ noLeap) noLeap short offset
  rw [LocalTime.seconds_ofSeconds, Int.add_sub_cancel] at point
  exact point

end Instant

/-! ### Amounts of a unit -/

namespace TokenTable

/-- The words behind an amount end where they seem to: no unit holds the character that the
word for "ago" starts with, or that what may follow a value starts with, and no word for "ago"
goes on into another. -/
structure CountsPlainly (table : TokenTable) : Prop where
  units : ∀ entry ∈ table.entries, entry.1 = .ago ∨ entry.1.isEnder = true →
    ∀ other ∈ table.entries, isUnit other.1 = true → ∀ first ∈ entry.2, ∀ token ∈ other.2,
      first.toList.head?.all (fun c => !(lower token.toList).contains c.toLower) = true
  ago : ∀ entry ∈ table.entries, entry.1 = .ago → ∀ token ∈ entry.2,
    table.settled .ago token.toList = true

theorem countsPlainly_dsl : dsl.CountsPlainly where
  units := by decide +kernel
  ago := by decide +kernel

theorem countsPlainly_cnl : cnl.CountsPlainly where
  units := by decide +kernel
  ago := by decide +kernel

/-- An amount of a unit and perhaps the word for "ago". -/
inductive AmountPhrase (table : TokenTable) : List Char → TimeUnit → Nat → List Char → Prop where
  | plain {run after rest : List Char} {unit : TimeUnit} (digits : Digits run)
      (unit_ : table.Token (.unit unit) after rest) :
      AmountPhrase table (run ++ after) unit (numberOf run) rest
  | ago {run after mid rest : List Char} {unit : TimeUnit} (digits : Digits run)
      (unit_ : table.Token (.unit unit) after mid) (ago_ : table.Token .ago mid rest) :
      AmountPhrase table (run ++ after) unit (numberOf run) rest

variable {table : TokenTable} {text rest : List Char} {unit : TimeUnit} {amount : Nat}

theorem AmountPhrase.suffix (h : table.AmountPhrase text unit amount rest) : rest <:+ text := by
  cases h with
  | plain _ unit_ => exact unit_.cleanCut.suffix.trans (List.suffix_append _ _)
  | ago _ unit_ ago_ =>
    exact ago_.cleanCut.suffix.trans (unit_.cleanCut.suffix.trans (List.suffix_append _ _))

theorem AmountPhrase.start (h : table.AmountPhrase text unit amount rest) :
    ∃ c tail, text = c :: tail ∧ c.isDigit = true := by
  cases h with
  | plain digits _ => exact digits.start _
  | ago digits _ _ => exact digits.start _

end TokenTable

namespace Grammar

open ForumModeration.Parser

/-- Counting back from the present is exact, and there is no limit to it but the years that can
be written. -/
theorem backFromNow?_eq_some_iff {g : Grammar} {unit : TimeUnit} {amount : Nat}
    {instant : Instant} (noLeap : g.now.isLeap = false) :
    g.backFromNow? unit amount = some instant ↔
      instant.seconds = g.now.seconds - amount * unit.seconds ∧ instant.nanos = g.now.nanos ∧
        instant.offset = g.now.offset ∧ hasShortYear instant = true := by
  obtain ⟨span, hspan⟩ : ∃ span : Nat, (span : Int) = amount * unit.seconds :=
    ⟨amount * unit.seconds, Int.natCast_mul _ _⟩
  have counted : g.backFromNow? unit amount = some instant ↔
      (-9223372036854775 ≤ (span : Int) ∧ (span : Int) ≤ 9223372036854775) ∧
        Instant.ofUnix? (g.now.seconds - span) g.now.nanos g.now.offset = some instant ∧
          hasShortYear instant = true := by
    simp only [backFromNow?, TimeUnit.span?, ← hspan, Option.bind_eq_bind,
      Option.bind_eq_some_iff, Option.ite_none_right_eq_some, Option.some.injEq]
    constructor
    · rintro ⟨_, ⟨fits, rfl⟩, _, found, short, rfl⟩
      rw [Int.toNat_natCast, Instant.before?_of_noLeap noLeap] at found
      exact ⟨fits, found, short⟩
    · rintro ⟨fits, found, short⟩
      refine ⟨_, ⟨fits, rfl⟩, instant, ?_, short, rfl⟩
      rw [Int.toNat_natCast, Instant.before?_of_noLeap noLeap, found]
  rw [counted, ← hspan]
  constructor
  · rintro ⟨_, found, short⟩
    obtain ⟨_, same⟩ := Option.dite_none_right_eq_some.mp found
    cases same
    exact ⟨rfl, rfl, rfl, short⟩
  · rintro ⟨seconds, nanos, offset, short⟩
    -- Both instants are points of time, so what lies between them fits 64 bits.
    obtain ⟨low, high, _⟩ := instant.pointOfTime
    obtain ⟨low', high', _⟩ := g.now.pointOfTime
    refine ⟨⟨by omega, by omega⟩, ?_, short⟩
    rw [← seconds, ← nanos, ← offset]
    exact instant.ofUnix?_seconds

variable {table : TokenTable} {g : Grammar} {text mid rest : List Char} {unit : TimeUnit}
  {amount : Nat} {wantsDate : Bool}

theorem isUnit_of_alike {t : Symbol} (alike : (Symbol.unit unit).alike t = true) :
    TokenTable.isUnit t = true := by
  cases t <;> first | rfl | cases alike

/-- A unit is read in front of the word for "ago" and of what may follow a value. -/
theorem timeUnit_before (hg : g.lexicon = table.lexicon) (legible : table.Legible)
    (contained : table.Contained) (plain : table.CountsPlainly)
    (token : table.Token (.unit unit) text mid)
    (next : Ends table mid ∨ ∃ rest, table.Token .ago mid rest) :
    g.timeUnit text = .ok (unit, mid) := by
  have before : ∀ {symbol : Symbol} {after : List Char},
      symbol = .ago ∨ symbol.isEnder = true → table.Token symbol mid after →
      g.pick unitOf text = .ok (unit, mid) := by
    intro symbol after follows token'
    refine pick_before_token hg legible contained rfl (fun _ => alike_of_unitOf) ?_ token token'
    intro entry mem named other mem' alike
    exact plain.units entry mem (by rwa [named]) other mem' (isUnit_of_alike alike)
  rw [timeUnit_eq]
  rcases next with (nothing | ⟨symbol, after, ender, token'⟩) | ⟨rest, ago⟩
  · refine pick_before_blank hg legible contained rfl (fun _ => alike_of_unitOf) ?_ token
    exact fun c first => List.dropWhile_eq_nil_iff.mp nothing c (List.mem_of_mem_head? first)
  · exact before (.inr ender) token'
  · exact before (.inl rfl) ago

/-- An amount of a unit is taken as a relative time, and then it has to be one. -/
theorem relative_of_amountPhrase (hg : g.lexicon = table.lexicon) (legible : table.Legible)
    (contained : table.Contained) (plain : table.CountsPlainly)
    (phrase : table.AmountPhrase text unit amount rest) (bounded : amount ≤ maxAmount)
    (ends : Ends table rest) :
    g.relative text = (g.backFromNow? unit amount).elim (reject .timeInRange rest)
      (fun instant => .ok (instant, rest)) := by
  have loose : ∀ {after mid : List Char}, table.Token (.unit unit) after mid →
      Ahead (Char.isDigit · = false) after :=
    fun unit_ => (unit_.plain legible).imp fun _ => isDigit_of_startsNoToken
  cases phrase with
  | plain digits unit_ =>
    exact relative_of_parts digits bounded (loose unit_)
      (timeUnit_before hg legible contained plain unit_ (.inl ends))
      (ends.ago_declines hg legible).optional
  | @ago run after mid _ _ digits unit_ ago_ =>
    have word : g.symbol .ago mid = .ok ((), rest) := by
      rw [symbol_eq]
      refine pick_of_all_settled hg legible plain.ago rfl (by simp [exactly]) ?_ ago_
      intro t want
      rw [eq_of_exactly want]
      exact alike_self _
    exact relative_of_parts digits bounded (loose unit_)
      (timeUnit_before hg legible contained plain unit_ (.inr ⟨rest, ago_⟩)) (optional_of_ok word)

/-- A literal that starts with a digit is neither a string nor a list. -/
theorem literal_of_digit (hg : g.lexicon = table.lexicon) (legible : table.Legible) {c : Char}
    {tail : List Char} (start : skipBlanks text = c :: tail) (digit : c.isDigit = true)
    (depth : Nat) : g.literal wantsDate depth text = g.bareLiteral (skipBlanks text) := by
  have noQuote : (g.quotedLiteral wantsDate).Declines (skipBlanks text) := by
    rw [start]
    exact quotedLiteral_declines (ahead_cons.mpr (ne_quote_of_isDigit digit))
  have noBracket := leftBracket_declines_ahead hg legible start (startsNoToken_of_isDigit digit)
  rw [literal_apply, literalBody, noQuote.orElse_eq]
  exact (Declines.bind noBracket).orElse_eq

/-- A unit behind the digits keeps them from being a date. -/
theorem date_declines_amountPhrase (legible : table.Legible)
    (phrase : table.AmountPhrase text unit amount rest) : g.date.Declines text := by
  have unitBehind : ∀ {run after mid : List Char}, Digits run →
      table.Token (.unit unit) after mid → g.date.Declines (run ++ after) := by
    intro run after mid digits unit_
    exact date_declines digits.2 ((unit_.plain legible).imp fun _ => noDate_of_plain)
  cases phrase with
  | plain digits unit_ => exact unitBehind digits unit_
  | ago digits unit_ _ => exact unitBehind digits unit_

/-- A literal that is an amount of a unit stands for the instant so long before the present, and
where there is none that can be written, it is refused for good. -/
theorem literal_of_amountPhrase (hg : g.lexicon = table.lexicon) (legible : table.Legible)
    (contained : table.Contained) (plain : table.CountsPlainly)
    (phrase : table.AmountPhrase (skipBlanks text) unit amount rest) (bounded : amount ≤ maxAmount)
    (ends : Ends table rest) (depth : Nat) :
    g.literal wantsDate depth text = (g.backFromNow? unit amount).elim (reject .timeInRange rest)
      (fun instant => .ok (.instant instant, rest)) := by
  obtain ⟨c, tail, start, digit⟩ := phrase.start
  have noDate := date_declines_amountPhrase (g := g) legible phrase
  have read := relative_of_amountPhrase hg legible contained plain phrase bounded ends
  rw [literal_of_digit hg legible start digit]
  refine noDate.map.orElse_eq.trans ?_
  cases counted : g.backFromNow? unit amount with
  | none =>
    rw [counted] at read
    exact orElse_of_final (bind_of_error read) rfl
  | some instant =>
    rw [counted] at read
    exact orElse_of_ok (map_eq_ok.mpr ⟨instant, read, rfl⟩)

theorem costs_of_amountPhrase (hg : g.lexicon = table.lexicon) (legible : table.Legible)
    (contained : table.Contained) (plain : table.CountsPlainly) {instant : Instant}
    (phrase : table.AmountPhrase (skipBlanks text) unit amount rest) (bounded : amount ≤ maxAmount)
    (ends : Ends table rest) (counted : g.backFromNow? unit amount = some instant) :
    Costs (g.literal wantsDate) 0 text (.instant instant) rest := by
  have read : ∀ depth, g.literal wantsDate depth text = .ok (.instant instant, rest) := by
    intro depth
    rw [literal_of_amountPhrase hg legible contained plain phrase bounded ends, counted]
    rfl
  refine (Costs.const (read 0) ?_).congr fun depth => (read depth).trans (read 0).symm
  exact phrase.suffix.length_le.trans (skipBlanks_length_le text)

end Grammar

/-! ### Dates and dates between quotes -/

/-- A date of a local time, or a string that holds nothing but such a date and blanks. The text
that the quotes hold is given, if there are quotes. -/
inductive DateLiteral (time : LocalTime) : List Char → Option (List Char) → List Char → Prop where
  | bare {written rest : List Char} (spelled : DateText written time) :
      DateLiteral time (written ++ rest) none rest
  | quoted {mark : Char} {body before written behind rest : List Char}
      (mark_ : mark = '\'' ∨ mark = '"') (before_ : ∀ c ∈ before, isBlank c = true)
      (spelled : DateText written time) (behind_ : ∀ c ∈ behind, isBlank c = true)
      (body_ : QuotedBody mark body (before ++ (written ++ behind))) :
      DateLiteral time (mark :: (body ++ mark :: rest)) (some (before ++ (written ++ behind))) rest

/-- A text without the mark and without backslashes stands for itself between quotes. -/
theorem QuotedBody.self {mark : Char} {text : List Char}
    (plain : ∀ c ∈ text, c ≠ mark ∧ c ≠ '\\') : QuotedBody mark text text := by
  induction text with
  | nil => exact .nil
  | cons c text ih =>
    obtain ⟨noMark, noEscape⟩ := plain c (by simp)
    exact .plain noMark noEscape (ih fun d mem => plain d (List.mem_cons_of_mem _ mem))

/-- Blanks around a date are trimmed. -/
theorem DateText.trim {written before behind : List Char} {time : LocalTime}
    (h : DateText written time) (before_ : ∀ c ∈ before, isBlank c = true)
    (behind_ : ∀ c ∈ behind, isBlank c = true) :
    trim (before ++ (written ++ behind)) = written := by
  obtain ⟨c, tail, start, digit⟩ := h.digit
  obtain ⟨front, d, last, stop⟩ := h.endsIn
  have solid : isBlank d = false := by
    rcases stop with digit | word
    · exact isBlank_eq_false_of_isDigit digit
    · simp only [List.mem_cons, List.not_mem_nil, or_false] at word
      rcases word with rfl | rfl | rfl <;> decide
  have first : skipBlanks (before ++ (written ++ behind)) = written ++ behind := by
    rw [skipBlanks_append_of_blank before_, start, List.cons_append,
      skipBlanks_eq_of_not_blank (isBlank_eq_false_of_isDigit digit)]
  have blank : ∀ c ∈ behind.reverse, isBlank c = true :=
    fun c mem => behind_ c (List.mem_reverse.mp mem)
  have reversed : skipBlanks (written ++ behind).reverse = written.reverse := by
    rw [List.reverse_append, skipBlanks_append_of_blank blank, last, List.reverse_concat,
      skipBlanks_eq_of_not_blank solid]
  rw [Text.trim, first, reversed, List.reverse_reverse]

/-- A date text means one local time. -/
theorem DateText.unique {written : List Char} {time time' : LocalTime} (h : DateText written time)
    (h' : DateText written time') : time = time' := by
  have read := Grammar.localTime_of_dateText h detached_nil
  have read' := Grammar.localTime_of_dateText h' detached_nil
  rw [read] at read'
  cases read'
  rfl

namespace DateLiteral

open Grammar ForumModeration.Parser

variable {table : TokenTable} {g : Grammar} {text rest : List Char} {held : Option (List Char)}
  {time : LocalTime}

/-- A date that is no string starts with a digit, and a string with its quote. -/
theorem special (h : DateLiteral time text held rest) : Ahead (startsNoToken · = true) text := by
  cases h with
  | bare spelled =>
    obtain ⟨c, tail, rfl, digit⟩ := spelled.digit
    exact ahead_cons.mpr (startsNoToken_of_isDigit digit)
  | quoted mark_ _ _ _ _ => rcases mark_ with rfl | rfl <;> exact ahead_cons.mpr (by decide)

/-- Dates of the calendar are read in all their forms, if dates are wanted. -/
theorem costs (hg : g.lexicon = table.lexicon) (legible : table.Legible) {instant : Instant}
    (h : DateLiteral time (skipBlanks text) held rest) (ends : Ends table rest)
    (found : Instant.ofLocal? time g.now.offset = some instant) :
    Costs (g.literal true) 0 text (.instant instant) rest := by
  generalize start : skipBlanks text = stands at h
  cases h with
  | bare spelled =>
    exact Costs.date hg legible start ⟨time, spelled, found⟩ (ends.detached legible)
  | quoted mark_ before_ spelled behind_ body_ =>
    refine Costs.string start mark_ body_ (.date rfl ?_)
    rw [spelled.trim before_ behind_]
    exact ⟨time, spelled, found⟩

/-- A string stays what it is, if it spells no date of the calendar. -/
theorem costs_string {string : List Char}
    (h : DateLiteral time (skipBlanks text) (some string) rest)
    (none : Instant.ofLocal? time g.now.offset = none) :
    Costs (g.literal true) 0 text (.string (String.ofList string)) rest := by
  generalize start : skipBlanks text = stands at h
  cases h with
  | quoted mark_ before_ spelled behind_ body_ =>
    refine Costs.string start mark_ body_ (.itself ?_)
    rintro - instant ⟨time', spelled', found⟩
    rw [spelled.trim before_ behind_] at spelled'
    rw [← spelled.unique spelled', none] at found
    cases found

/-- A date without quotes is refused at its first character, if the calendar does not have
it. -/
theorem refused (hg : g.lexicon = table.lexicon) (legible : table.Legible)
    (h : DateLiteral time (skipBlanks text) none rest) (ends : Ends table rest)
    (none : Instant.ofLocal? time g.now.offset = none) (wantsDate : Bool) (depth : Nat) :
    g.literal wantsDate depth text
      = .error ⟨skipBlanks text, some (.requirement .calendarDate), true⟩ := by
  generalize start : skipBlanks text = stands at h
  cases h with
  | @bare written _ spelled =>
    obtain ⟨c, tail, split, digit⟩ := spelled.digit
    have start' : skipBlanks text = c :: (tail ++ rest) := by rw [start, split, List.cons_append]
    have date : g.date (written ++ rest)
        = .error ⟨written ++ rest, some (.requirement .calendarDate), true⟩ := by
      rw [date_of_localTime (localTime_of_dateText spelled (ends.detached legible)), none]
      rfl
    rw [literal_of_digit hg legible start' digit, start]
    exact orElse_of_final (bind_of_error date) rfl

end DateLiteral

end ForumModeration
