import ForumModeration.Grammar.Moment
import ForumModeration.Proofs.Grammar.Tokens
import ForumModeration.Proofs.Text.Digits
import ForumModeration.Rendering

/-!
# `ForumModeration.Proofs.Grammar.Dates`: absolute dates and their texts

`DateText` lists the texts of dates: with dashes or slashes, or in Chinese, with a
time of day or without. `AbsoluteDate` adds that the calendar has the date.

* `absoluteDate_of_date`: the reader of dates accepts such texts only.
* `date_of_absoluteDate`: it accepts all of them, if what follows cannot go on with a
  date (`Detached`).
* `complete_date_iff`: a whole text is read as a date exactly if it is one.
* `date_declines`: digits that neither dash, slash nor `年` follows are left to the
  readers of other literals.
* `dateText_moment`: the text that is written for an instant is a date text of its
  local time.
-/

set_option autoImplicit false

namespace ForumModeration

open Text

/-- The text of a number in `least` to `most` digits. -/
structure ShortNumber (least most : Nat) (written : List Char) (n : Nat) : Prop where
  least : least ≤ written.length
  most : written.length ≤ most
  digits : ∀ c ∈ written, c.isDigit = true
  value : numberOf written = n

/-- The text of a fraction of a second, which may be missing. -/
inductive FractionText : List Char → Nat → Prop where
  | none : FractionText [] 0
  | digits {run : List Char} (nonempty : run ≠ []) (digits : ∀ c ∈ run, c.isDigit = true) :
      FractionText ('.' :: run) (Timestamp.nanosOf run)

/-- A time of day with colons, and the spaces or the letter in front of it. -/
inductive ColonTimeText : List Char → Grammar.TimeOfDay → Prop where
  | mk {lead hour minute second fraction : List Char} {h m s f : Nat}
      (separated : lead = ['T'] ∨ (lead ≠ [] ∧ ∀ c ∈ lead, c = ' '))
      (hour_ : ShortNumber 1 2 hour h) (minute_ : ShortNumber 1 2 minute m)
      (second_ : ShortNumber 1 2 second s) (fraction_ : FractionText fraction f) :
      ColonTimeText (lead ++ (hour ++ ':' :: (minute ++ ':' :: (second ++ fraction)))) (h, m, s, f)

/-- A time of day in Chinese, with seconds or without, and the blanks in front of it. -/
inductive ChineseTimeText : List Char → Grammar.TimeOfDay → Prop where
  | minutes {lead hour minute : List Char} {h m : Nat} (blank : ∀ c ∈ lead, isBlank c = true)
      (hour_ : ShortNumber 1 2 hour h) (minute_ : ShortNumber 1 2 minute m) :
      ChineseTimeText (lead ++ (hour ++ '时' :: (minute ++ ['分']))) (h, m, 0, 0)
  | seconds {lead hour minute second fraction : List Char} {h m s f : Nat}
      (blank : ∀ c ∈ lead, isBlank c = true) (hour_ : ShortNumber 1 2 hour h)
      (minute_ : ShortNumber 1 2 minute m) (second_ : ShortNumber 1 2 second s)
      (fraction_ : FractionText fraction f) :
      ChineseTimeText
        (lead ++ (hour ++ '时' :: (minute ++ '分' :: (second ++ (fraction ++ ['秒'])))))
        (h, m, s, f)

/-- The texts of dates with the local times that they mean. -/
inductive DateText : List Char → LocalTime → Prop where
  | dashed {year month day : List Char} {sep sep' : Char} {y m d : Nat}
      (year_ : ShortNumber 4 4 year y) (sep_ : sep = '-' ∨ sep = '/')
      (month_ : ShortNumber 1 2 month m) (sep'_ : sep' = '-' ∨ sep' = '/')
      (day_ : ShortNumber 1 2 day d) :
      DateText (year ++ sep :: (month ++ sep' :: day)) (Grammar.timeOn y m d none)
  | dashedTime {year month day time : List Char} {sep sep' : Char} {y m d : Nat}
      {t : Grammar.TimeOfDay} (year_ : ShortNumber 4 4 year y) (sep_ : sep = '-' ∨ sep = '/')
      (month_ : ShortNumber 1 2 month m) (sep'_ : sep' = '-' ∨ sep' = '/')
      (day_ : ShortNumber 1 2 day d) (time_ : ColonTimeText time t) :
      DateText (year ++ sep :: (month ++ sep' :: (day ++ time))) (Grammar.timeOn y m d (some t))
  | chinese {year month day : List Char} {y m d : Nat} (year_ : ShortNumber 4 4 year y)
      (month_ : ShortNumber 1 2 month m) (day_ : ShortNumber 1 2 day d) :
      DateText (year ++ '年' :: (month ++ '月' :: (day ++ ['日']))) (Grammar.timeOn y m d none)
  | chineseTime {year month day time : List Char} {y m d : Nat} {t : Grammar.TimeOfDay}
      (year_ : ShortNumber 4 4 year y) (month_ : ShortNumber 1 2 month m)
      (day_ : ShortNumber 1 2 day d) (time_ : ChineseTimeText time t) :
      DateText (year ++ '年' :: (month ++ '月' :: (day ++ '日' :: time)))
        (Grammar.timeOn y m d (some t))

/-- A text that is a date of the calendar, read in an offset. -/
def AbsoluteDate (offset : Offset) (written : List Char) (instant : Instant) : Prop :=
  ∃ time, DateText written time ∧ Instant.ofLocal? time offset = some instant

/-- A date starts with a digit of its year. -/
theorem DateText.digit {written : List Char} {time : LocalTime} (h : DateText written time) :
    ∃ c tail, written = c :: tail ∧ c.isDigit = true := by
  have first : ∀ {year tail : List Char} {y : Nat}, ShortNumber 4 4 year y →
      ∃ c more, year ++ tail = c :: more ∧ c.isDigit = true := by
    intro year tail y year_
    cases year with
    | nil => exact absurd year_.least (by decide)
    | cons c year => exact ⟨c, year ++ tail, rfl, year_.digits c (by simp)⟩
  cases h <;> exact first ‹_›

/-- A text has a last character, and the character satisfies a condition. -/
def EndsIn (P : Char → Prop) (text : List Char) : Prop :=
  ∃ front c, text = front ++ [c] ∧ P c

namespace EndsIn

variable {P : Char → Prop} {text : List Char}

theorem append (h : EndsIn P text) (front : List Char) : EndsIn P (front ++ text) := by
  obtain ⟨before, c, rfl, hc⟩ := h
  exact ⟨front ++ before, c, (List.append_assoc _ _ _).symm, hc⟩

theorem cons (h : EndsIn P text) (c : Char) : EndsIn P (c :: text) :=
  h.append [c]

theorem of_all (nonempty : text ≠ []) (all : ∀ c ∈ text, P c) : EndsIn P text :=
  ⟨_, _, (List.dropLast_append_getLast nonempty).symm, all _ (List.getLast_mem nonempty)⟩

theorem imp {Q : Char → Prop} (h : EndsIn P text) (imp : ∀ c, P c → Q c) : EndsIn Q text := by
  obtain ⟨before, c, rfl, hc⟩ := h
  exact ⟨before, c, rfl, imp c hc⟩

end EndsIn

theorem ShortNumber.endsIn {most n : Nat} {written : List Char} (h : ShortNumber 1 most written n) :
    EndsIn (Char.isDigit · = true) written :=
  .of_all (List.ne_nil_of_length_pos h.least) h.digits

/-- The last character of a time with colons is a digit. -/
theorem ColonTimeText.endsIn {written : List Char} {t : Grammar.TimeOfDay}
    (h : ColonTimeText written t) : EndsIn (Char.isDigit · = true) written := by
  obtain ⟨_, _, _, second_, fraction_⟩ := h
  cases fraction_ with
  | none =>
    rw [List.append_nil]
    exact ((((second_.endsIn.cons _).append _).cons _).append _).append _
  | digits nonempty digits =>
    have fraction := (EndsIn.of_all nonempty digits).cons '.'
    exact (((((fraction.append _).cons _).append _).cons _).append _).append _

/-- The last character of a time in Chinese is a word for a unit. -/
theorem ChineseTimeText.endsIn {written : List Char} {t : Grammar.TimeOfDay}
    (h : ChineseTimeText written t) : EndsIn (· ∈ ['分', '秒']) written := by
  have word : ∀ {c : Char}, c ∈ ['分', '秒'] → EndsIn (· ∈ ['分', '秒']) [c] :=
    fun listed => ⟨[], _, rfl, listed⟩
  cases h with
  | minutes _ _ _ => exact ((((word (by decide)).append _).cons _).append _).append _
  | seconds _ _ _ _ _ =>
    exact ((((((word (by decide)).append _).append _).cons _).append _).cons _).append _
      |>.append _

/-- A date ends in a digit or in a Chinese word of one character. -/
theorem DateText.endsIn {written : List Char} {time : LocalTime} (h : DateText written time) :
    EndsIn (fun c => c.isDigit = true ∨ c ∈ ['日', '分', '秒']) written := by
  cases h with
  | dashed _ _ _ _ day_ =>
    exact ((((day_.endsIn.cons _).append _).cons _).append _).imp fun _ => .inl
  | dashedTime _ _ _ _ _ time_ =>
    exact (((((time_.endsIn.append _).cons _).append _).cons _).append _).imp fun _ => .inl
  | chinese _ _ _ =>
    exact ((((EndsIn.append ⟨[], _, rfl, .inr (by decide)⟩ _).cons _).append _).cons _).append _
  | chineseTime _ _ _ time_ =>
    refine ((((((time_.endsIn.cons _).append _).cons _).append _).cons _).append _).imp ?_
    exact fun _ listed => .inr (List.mem_cons_of_mem _ listed)

theorem AbsoluteDate.digit {offset : Offset} {written : List Char} {instant : Instant}
    (h : AbsoluteDate offset written instant) :
    ∃ c tail, written = c :: tail ∧ c.isDigit = true := by
  obtain ⟨_, spelled, _⟩ := h
  exact spelled.digit

/-- A date has a year of four digits and is not in a leap second. -/
theorem DateText.bounds {written : List Char} {time : LocalTime} (h : DateText written time) :
    (0 ≤ time.date.year ∧ time.date.year ≤ 9999) ∧ time.nanos < 1000000000 := by
  have year : ∀ {run : List Char} {y : Nat}, ShortNumber 4 4 run y →
      (0 : Int) ≤ (y : Int) ∧ (y : Int) ≤ 9999 := by
    intro run y year_
    have bound := numberOf_lt year_.digits
    rw [year_.value, show run.length = 4 from Nat.le_antisymm year_.most year_.least] at bound
    omega
  have fraction : ∀ {run : List Char} {n : Nat}, FractionText run n → n < 1000000000 := by
    intro run n fraction_
    cases fraction_ with
    | none => decide
    | @digits run _ digits =>
      have all : ∀ c ∈ (run ++ List.replicate 9 '0').take 9, c.isDigit = true := fun c mem =>
        isDigit_of_mem_append digits (fun _ => isDigit_of_mem_zeros) c (List.mem_of_mem_take mem)
      have bound := numberOf_lt all
      have length : ((run ++ List.replicate 9 '0').take 9).length = 9 := by
        simp only [List.length_take, List.length_append, List.length_replicate]
        omega
      rw [length] at bound
      exact bound
  cases h with
  | dashed year_ _ _ _ _ => exact ⟨year year_, fraction .none⟩
  | dashedTime year_ _ _ _ _ time_ =>
    obtain ⟨_, _, _, _, fraction_⟩ := time_
    exact ⟨year year_, fraction fraction_⟩
  | chinese year_ _ _ => exact ⟨year year_, fraction .none⟩
  | chineseTime year_ _ _ time_ =>
    cases time_ with
    | minutes _ _ _ => exact ⟨year year_, fraction .none⟩
    | seconds _ _ _ _ fraction_ => exact ⟨year year_, fraction fraction_⟩

theorem Grammar.hasShortYear_iff {instant : Instant} : hasShortYear instant = true ↔
    0 ≤ instant.localTime.date.year ∧ instant.localTime.date.year ≤ 9999 := by
  rw [hasShortYear, Bool.and_eq_true, decide_eq_true_eq, decide_eq_true_eq]

/-- The instant of a date is in the offset in which the date is read, and it can be
written as a date again. -/
theorem AbsoluteDate.readable {offset : Offset} {written : List Char} {instant : Instant}
    (h : AbsoluteDate offset written instant) :
    instant.offset = offset ∧ instant.isLeap = false ∧ Grammar.hasShortYear instant = true := by
  obtain ⟨time, spelled, found⟩ := h
  obtain ⟨shown, offset_⟩ := Instant.localTime_ofLocal? found
  obtain ⟨year, nanos⟩ := spelled.bounds
  rw [← shown] at year nanos
  exact ⟨offset_, decide_eq_false (Nat.not_le.mpr nanos), Grammar.hasShortYear_iff.mpr year⟩

/-- What follows a literal does not go on with it, not even after blanks. -/
def Detached (rest : List Char) : Prop :=
  Ahead (fun c => startsNoToken c = false ∧ c ≠ 'T') (skipBlanks rest)

theorem detached_nil : Detached [] :=
  ahead_nil _

/-- What follows directly is a blank, or it is what follows after the blanks. -/
theorem Detached.ahead {rest : List Char} (h : Detached rest) :
    Ahead (fun c => startsNoToken c = false ∧ c ≠ 'T') rest := by
  refine ahead_of_skipBlanks (fun c blank => ⟨startsNoToken_of_isBlank blank, ?_⟩) h
  rintro rfl
  revert blank
  decide

theorem Detached.noDigit {rest : List Char} (h : Detached rest) :
    Ahead (Char.isDigit · = false) rest :=
  h.ahead.imp fun _ hc => isDigit_of_startsNoToken hc.1

theorem Detached.noDigit_skipBlanks {rest : List Char} (h : Detached rest) :
    Ahead (Char.isDigit · = false) (skipBlanks rest) :=
  Ahead.imp (fun _ hc => isDigit_of_startsNoToken hc.1) h

namespace Grammar

open ForumModeration.Parser

variable {text rest written : List Char} {least most n : Nat}

/-! ### Fields -/

theorem shortNumber_eq_ok (h : shortNumber least most text = .ok (n, rest)) :
    ∃ written, text = written ++ rest ∧ ShortNumber least most written n := by
  unfold shortNumber at h
  obtain ⟨run, mid, hrun, hn⟩ := bind_eq_ok.mp h
  obtain ⟨rfl, rfl⟩ := pure_eq_ok.mp hn
  obtain ⟨low, high, rfl, digits, _⟩ := runBetween_eq_ok.mp hrun
  exact ⟨run, rfl, low, high, digits, rfl⟩

theorem shortNumber_of (h : ShortNumber least most written n)
    (ends : Ahead (Char.isDigit · = false) rest) :
    shortNumber least most (written ++ rest) = .ok (n, rest) := by
  unfold shortNumber
  rw [bind_of_ok (runBetween_eq_ok.mpr ⟨h.least, h.most, rfl, h.digits, fun _ => ends⟩), h.value]
  rfl

/-- A field is followed by a fixed character that is no digit. -/
theorem shortNumber_cons (h : ShortNumber least most written n) {c : Char}
    (hc : c.isDigit = false) :
    shortNumber least most (written ++ c :: rest) = .ok (n, c :: rest) :=
  shortNumber_of h (ahead_cons.mpr hc)

theorem shortNumber_declines (positive : 0 < least) (h : Ahead (Char.isDigit · = false) text) :
    (shortNumber least most).Declines text :=
  Declines.bind (runBetween_declines positive h)

theorem fractionOfSecond_eq_ok (h : fractionOfSecond text = .ok (n, rest)) :
    ∃ written, text = written ++ rest ∧ FractionText written n := by
  unfold fractionOfSecond at h
  obtain ⟨_, mid, hpoint, h1⟩ := bind_eq_ok.mp h
  obtain ⟨digits, mid', hrun, h2⟩ := bind_eq_ok.mp h1
  obtain ⟨rfl, rfl⟩ := pure_eq_ok.mp h2
  obtain ⟨rfl, _⟩ := char_eq_ok.mp hpoint
  obtain ⟨nonempty, rfl, all, _⟩ := run_eq_ok.mp hrun
  exact ⟨'.' :: digits, rfl, .digits nonempty all⟩

theorem optional_fraction_eq_ok {nanos : Option Nat}
    (h : optional fractionOfSecond text = .ok (nanos, rest)) :
    ∃ written, text = written ++ rest ∧ FractionText written (nanos.getD 0) := by
  rcases optional_eq_ok.mp h with ⟨f, rfl, read⟩ | ⟨rfl, rfl, _⟩
  · exact fractionOfSecond_eq_ok read
  · exact ⟨[], rfl, .none⟩

theorem optional_fraction_of (h : FractionText written n)
    (ends : Ahead (fun c => c.isDigit = false ∧ c ≠ '.') rest) :
    ∃ nanos, optional fractionOfSecond (written ++ rest) = .ok (nanos, rest) ∧
      nanos.getD 0 = n := by
  cases h with
  | none =>
    refine ⟨none, Declines.optional (Declines.bind (char_declines ?_)), rfl⟩
    exact ends.imp fun _ hc => hc.2
  | @digits digits nonempty all =>
    refine ⟨some (Timestamp.nanosOf digits), optional_of_ok ?_, rfl⟩
    unfold fractionOfSecond
    rw [List.cons_append, bind_of_ok (char_eq_ok.mpr ⟨rfl, rfl⟩), bind_of_ok (run_eq_ok.mpr
      ⟨nonempty, rfl, all, ends.imp fun _ hc => hc.1⟩)]
    rfl

private theorem separator_eq_ok {c : Char}
    (h : satisfying (fun c => c = '-' || c = '/') text = .ok (c, rest)) :
    text = c :: rest ∧ (c = '-' ∨ c = '/') := by
  obtain ⟨split, accepted⟩ := satisfying_eq_ok.mp h
  exact ⟨split, by simpa using accepted⟩

theorem separator_of {c : Char} (h : c = '-' ∨ c = '/') :
    satisfying (fun c => c = '-' || c = '/') (c :: rest) = .ok (c, rest) :=
  satisfying_eq_ok.mpr ⟨rfl, by simpa using h⟩

theorem isDigit_separator {c : Char} (h : c = '-' ∨ c = '/') : c.isDigit = false := by
  rcases h with rfl | rfl <;> decide

/-! ### Times of day -/

theorem colonTimeText_of {t : TimeOfDay} (h : colonTime text = .ok (t, rest)) :
    ∃ written, text = written ++ rest ∧ ColonTimeText written t := by
  unfold colonTime at h
  obtain ⟨lead, t1, hlead, h1⟩ := bind_eq_ok.mp h
  obtain ⟨hour, t2, hhour, h2⟩ := bind_eq_ok.mp h1
  obtain ⟨_, t3, hcolon, h3⟩ := bind_eq_ok.mp h2
  obtain ⟨minute, t4, hminute, h4⟩ := bind_eq_ok.mp h3
  obtain ⟨_, t5, hcolon', h5⟩ := bind_eq_ok.mp h4
  obtain ⟨second, t6, hsecond, h6⟩ := bind_eq_ok.mp h5
  obtain ⟨nanos, t7, hnanos, h7⟩ := bind_eq_ok.mp h6
  obtain ⟨rfl, rfl⟩ := pure_eq_ok.mp h7
  obtain ⟨hourText, rfl, hour_⟩ := shortNumber_eq_ok hhour
  obtain ⟨rfl, _⟩ := char_eq_ok.mp hcolon
  obtain ⟨minuteText, rfl, minute_⟩ := shortNumber_eq_ok hminute
  obtain ⟨rfl, _⟩ := char_eq_ok.mp hcolon'
  obtain ⟨secondText, rfl, second_⟩ := shortNumber_eq_ok hsecond
  obtain ⟨fractionText, rfl, fraction_⟩ := optional_fraction_eq_ok hnanos
  have leadText : text = lead ++ (hourText ++ ':' :: (minuteText ++ ':' ::
        (secondText ++ (fractionText ++ t7)))) ∧
      (lead = ['T'] ∨ (lead ≠ [] ∧ ∀ c ∈ lead, c = ' ')) := by
    rcases orElse_eq_ok.mp hlead with spaces | ⟨_, letter⟩
    · obtain ⟨nonempty, split, all, _⟩ := run_eq_ok.mp spaces
      exact ⟨split, .inr ⟨nonempty, fun c hc => of_decide_eq_true (all c hc)⟩⟩
    · obtain ⟨c, mid, hc, hpure⟩ := bind_eq_ok.mp letter
      obtain ⟨rfl, rfl⟩ := pure_eq_ok.mp hpure
      obtain ⟨split, rfl⟩ := char_eq_ok.mp hc
      exact ⟨split, .inl rfl⟩
  refine ⟨_, ?_, .mk leadText.2 hour_ minute_ second_ fraction_⟩
  rw [leadText.1]
  simp only [List.append_assoc, List.cons_append]

/-- The first character of a field is a digit. -/
private theorem ShortNumber.cons (h : ShortNumber least most written n) (positive : 0 < least) :
    ∃ c tail, written = c :: tail ∧ c.isDigit = true := by
  cases written with
  | nil =>
    have := h.least
    simp only [List.length_nil] at this
    omega
  | cons c tail => exact ⟨c, tail, rfl, h.digits c (by simp)⟩

theorem colonTime_of {t : TimeOfDay} (h : ColonTimeText written t)
    (ends : Ahead (fun c => c.isDigit = false ∧ c ≠ '.') rest) :
    colonTime (written ++ rest) = .ok (t, rest) := by
  obtain ⟨separated, hour_, minute_, second_, fraction_⟩ := h
  rename_i lead hour minute second fraction h m s f
  obtain ⟨nanos, hnanos, value⟩ := optional_fraction_of fraction_ ends
  have afterSecond : Ahead (Char.isDigit · = false) (fraction ++ rest) := by
    cases fraction_ with
    | none => exact ends.imp fun _ hc => hc.1
    | digits _ _ => exact ahead_cons.mpr (by decide)
  have leadRead : ∀ tail, (orElse (run (· = ' ')) (do let c ← char 'T'; return [c]))
      (lead ++ (hour ++ tail)) = .ok (lead, hour ++ tail) := by
    intro tail
    obtain ⟨c, hour', rfl, digit⟩ := ShortNumber.cons hour_ (by decide)
    rcases separated with rfl | ⟨nonempty, all⟩
    · refine orElse_eq_ok.mpr (.inr ⟨run_declines (ahead_cons.mpr (by decide)), ?_⟩)
      rw [List.singleton_append, bind_of_ok (char_eq_ok.mpr ⟨rfl, rfl⟩)]
      rfl
    · refine orElse_of_ok (run_eq_ok.mpr ⟨nonempty, rfl, ?_, ?_⟩)
      · exact fun d hd => decide_eq_true (all d hd)
      · rw [List.cons_append, ahead_cons, decide_eq_false_iff_not]
        rintro rfl
        revert digit
        decide
  unfold colonTime
  simp only [List.append_assoc, List.cons_append]
  rw [bind_of_ok (leadRead _), bind_of_ok (shortNumber_cons hour_ (by decide)),
    bind_of_ok (char_eq_ok.mpr ⟨rfl, rfl⟩), bind_of_ok (shortNumber_cons minute_ (by decide)),
    bind_of_ok (char_eq_ok.mpr ⟨rfl, rfl⟩), bind_of_ok (shortNumber_of second_ afterSecond),
    bind_of_ok hnanos, value]
  rfl

theorem chineseTimeText_of {t : TimeOfDay} (h : chineseTime text = .ok (t, rest)) :
    ∃ written, text = written ++ rest ∧ ChineseTimeText written t := by
  unfold chineseTime at h
  obtain ⟨_, t1, hblanks, h1⟩ := bind_eq_ok.mp h
  obtain ⟨hour, t2, hhour, h2⟩ := bind_eq_ok.mp h1
  obtain ⟨_, t3, hsign, h3⟩ := bind_eq_ok.mp h2
  obtain ⟨minute, t4, hminute, h4⟩ := bind_eq_ok.mp h3
  obtain ⟨_, t5, hsign', h5⟩ := bind_eq_ok.mp h4
  obtain ⟨seconds, t6, hseconds, h6⟩ := bind_eq_ok.mp h5
  obtain ⟨rfl, rfl⟩ := pure_eq_ok.mp h6
  obtain ⟨lead, split, blank⟩ := exists_blanks text
  have skipped : skipBlanks text = t1 := by cases hblanks; rfl
  rw [skipped] at split
  obtain ⟨hourText, rfl, hour_⟩ := shortNumber_eq_ok hhour
  obtain ⟨rfl, _⟩ := char_eq_ok.mp hsign
  obtain ⟨minuteText, rfl, minute_⟩ := shortNumber_eq_ok hminute
  obtain ⟨rfl, _⟩ := char_eq_ok.mp hsign'
  rcases optional_eq_ok.mp hseconds with ⟨sec, rfl, read⟩ | ⟨rfl, rfl, _⟩
  · unfold chineseSeconds at read
    obtain ⟨second, s1, hsecond, r1⟩ := bind_eq_ok.mp read
    obtain ⟨nanos, s2, hnanos, r2⟩ := bind_eq_ok.mp r1
    obtain ⟨_, s3, hsign'', r3⟩ := bind_eq_ok.mp r2
    obtain ⟨rfl, rfl⟩ := pure_eq_ok.mp r3
    obtain ⟨secondText, rfl, second_⟩ := shortNumber_eq_ok hsecond
    obtain ⟨fractionText, rfl, fraction_⟩ := optional_fraction_eq_ok hnanos
    obtain ⟨rfl, _⟩ := char_eq_ok.mp hsign''
    refine ⟨_, ?_, .seconds blank hour_ minute_ second_ fraction_⟩
    rw [split]
    simp only [List.append_assoc, List.cons_append, List.nil_append]
  · refine ⟨_, ?_, .minutes blank hour_ minute_⟩
    rw [split]
    simp only [List.append_assoc, List.cons_append, List.nil_append]

theorem chineseTime_of {t : TimeOfDay} (h : ChineseTimeText written t) (ends : Detached rest) :
    chineseTime (written ++ rest) = .ok (t, rest) := by
  have skip : ∀ {lead hour : List Char} {n : Nat} (tail : List Char),
      (∀ c ∈ lead, isBlank c = true) → ShortNumber 1 2 hour n →
      blanks (lead ++ (hour ++ tail)) = .ok ((), hour ++ tail) := by
    intro lead hour n tail blank hour_
    obtain ⟨c, hour', rfl, digit⟩ := ShortNumber.cons hour_ (by decide)
    unfold blanks
    rw [skipBlanks_append_of_blank blank, List.cons_append,
      skipBlanks_eq_of_not_blank (isBlank_eq_false_of_isDigit digit)]
  unfold chineseTime
  cases h with
  | minutes blank hour_ minute_ =>
    simp only [List.append_assoc, List.cons_append, List.nil_append]
    have noSeconds : chineseSeconds.Declines rest :=
      Declines.bind (shortNumber_declines (by decide) ends.noDigit)
    rw [bind_of_ok (skip _ blank hour_), bind_of_ok (shortNumber_cons hour_ (by decide)),
      bind_of_ok (char_eq_ok.mpr ⟨rfl, rfl⟩), bind_of_ok (shortNumber_cons minute_ (by decide)),
      bind_of_ok (char_eq_ok.mpr ⟨rfl, rfl⟩), bind_of_ok noSeconds.optional]
    rfl
  | @seconds lead hour minute second fraction h m s f blank hour_ minute_ second_ fraction_ =>
    simp only [List.append_assoc, List.cons_append, List.nil_append]
    have sign : Ahead (fun c => c.isDigit = false ∧ c ≠ '.') ('秒' :: rest) :=
      ahead_cons.mpr (by decide)
    obtain ⟨nanos, hnanos, value⟩ := optional_fraction_of fraction_ sign
    have afterSecond : Ahead (Char.isDigit · = false) (fraction ++ '秒' :: rest) := by
      cases fraction_ with
      | none => exact ahead_cons.mpr (by decide)
      | digits _ _ => exact ahead_cons.mpr (by decide)
    have hseconds : chineseSeconds (second ++ (fraction ++ '秒' :: rest)) = .ok ((s, f), rest) := by
      unfold chineseSeconds
      rw [bind_of_ok (shortNumber_of second_ afterSecond), bind_of_ok hnanos,
        bind_of_ok (char_eq_ok.mpr ⟨rfl, rfl⟩), value]
      rfl
    rw [bind_of_ok (skip _ blank hour_), bind_of_ok (shortNumber_cons hour_ (by decide)),
      bind_of_ok (char_eq_ok.mpr ⟨rfl, rfl⟩), bind_of_ok (shortNumber_cons minute_ (by decide)),
      bind_of_ok (char_eq_ok.mpr ⟨rfl, rfl⟩), bind_of_ok (optional_of_ok hseconds)]
    rfl

/-! ### Dates -/

theorem dateText_of_dashedDate {time : LocalTime} (h : dashedDate text = .ok (time, rest)) :
    ∃ written, text = written ++ rest ∧ DateText written time := by
  unfold dashedDate at h
  obtain ⟨year, t1, hyear, h1⟩ := bind_eq_ok.mp h
  obtain ⟨sep, t2, hsep, h2⟩ := bind_eq_ok.mp h1
  obtain ⟨month, t3, hmonth, h3⟩ := bind_eq_ok.mp h2
  obtain ⟨sep', t4, hsep', h4⟩ := bind_eq_ok.mp h3
  obtain ⟨day, t5, hday, h5⟩ := bind_eq_ok.mp h4
  obtain ⟨tod, t6, htime, h6⟩ := bind_eq_ok.mp h5
  obtain ⟨rfl, rfl⟩ := pure_eq_ok.mp h6
  obtain ⟨yearText, rfl, year_⟩ := shortNumber_eq_ok hyear
  obtain ⟨rfl, sep_⟩ := separator_eq_ok hsep
  obtain ⟨monthText, rfl, month_⟩ := shortNumber_eq_ok hmonth
  obtain ⟨rfl, sep'_⟩ := separator_eq_ok hsep'
  obtain ⟨dayText, rfl, day_⟩ := shortNumber_eq_ok hday
  rcases optional_eq_ok.mp htime with ⟨t, rfl, read⟩ | ⟨rfl, rfl, _⟩
  · obtain ⟨timeText, rfl, time_⟩ := colonTimeText_of read
    refine ⟨_, ?_, .dashedTime year_ sep_ month_ sep'_ day_ time_⟩
    simp only [List.append_assoc, List.cons_append]
  · refine ⟨_, ?_, .dashed year_ sep_ month_ sep'_ day_⟩
    simp only [List.append_assoc, List.cons_append]

theorem dateText_of_chineseDate {time : LocalTime} (h : chineseDate text = .ok (time, rest)) :
    ∃ written, text = written ++ rest ∧ DateText written time := by
  unfold chineseDate at h
  obtain ⟨year, t1, hyear, h1⟩ := bind_eq_ok.mp h
  obtain ⟨_, t2, hsign, h2⟩ := bind_eq_ok.mp h1
  obtain ⟨month, t3, hmonth, h3⟩ := bind_eq_ok.mp h2
  obtain ⟨_, t4, hsign', h4⟩ := bind_eq_ok.mp h3
  obtain ⟨day, t5, hday, h5⟩ := bind_eq_ok.mp h4
  obtain ⟨_, t6, hsign'', h6⟩ := bind_eq_ok.mp h5
  obtain ⟨tod, t7, htime, h7⟩ := bind_eq_ok.mp h6
  obtain ⟨rfl, rfl⟩ := pure_eq_ok.mp h7
  obtain ⟨yearText, rfl, year_⟩ := shortNumber_eq_ok hyear
  obtain ⟨rfl, _⟩ := char_eq_ok.mp hsign
  obtain ⟨monthText, rfl, month_⟩ := shortNumber_eq_ok hmonth
  obtain ⟨rfl, _⟩ := char_eq_ok.mp hsign'
  obtain ⟨dayText, rfl, day_⟩ := shortNumber_eq_ok hday
  obtain ⟨rfl, _⟩ := char_eq_ok.mp hsign''
  rcases optional_eq_ok.mp htime with ⟨t, rfl, read⟩ | ⟨rfl, rfl, _⟩
  · obtain ⟨timeText, rfl, time_⟩ := chineseTimeText_of read
    refine ⟨_, ?_, .chineseTime year_ month_ day_ time_⟩
    simp only [List.append_assoc, List.cons_append]
  · refine ⟨_, ?_, .chinese year_ month_ day_⟩
    simp only [List.append_assoc, List.cons_append, List.nil_append]

/-- Without a time of day, what follows a date is not read as one. -/
private theorem colonTime_declines (ends : Detached rest) : colonTime.Declines rest := by
  have noT := char_declines (ends.ahead.imp fun _ hc => hc.2)
  unfold colonTime
  cases spaces : run (· = ' ') rest with
  | error failure =>
    have declines : (run (· = ' ')).Declines rest := by
      refine run_declines ?_
      cases rest with
      | nil => exact ahead_nil _
      | cons c rest =>
        rw [ahead_cons, decide_eq_false_iff_not]
        rintro rfl
        simp [run] at spaces
    exact Declines.bind (declines.orElse (Declines.bind noT))
  | ok result =>
    obtain ⟨lead, mid⟩ := result
    obtain ⟨_, rfl, all, _⟩ := run_eq_ok.mp spaces
    refine Declines.after (orElse_of_ok spaces)
      (Declines.bind (shortNumber_declines (by decide) ?_))
    -- Behind the spaces stands another blank or what follows after the blanks.
    refine Detached.noDigit ?_
    have blank : ∀ c ∈ lead, isBlank c = true := by
      intro c hc
      rw [of_decide_eq_true (all c hc)]
      decide
    rw [Detached, skipBlanks_append_of_blank blank] at ends
    exact ends

private theorem chineseTime_declines (ends : Detached rest) : chineseTime.Declines rest :=
  Declines.after (show blanks rest = .ok ((), skipBlanks rest) from rfl)
    (Declines.bind (shortNumber_declines (by decide) ends.noDigit_skipBlanks))

/-- A time of day does not go on with the digits of a day. -/
private theorem ahead_of_colonTimeText {clock : List Char} {t : TimeOfDay}
    (h : ColonTimeText clock t) : Ahead (Char.isDigit · = false) (clock ++ rest) := by
  cases h with
  | @mk lead hour minute second fraction _ _ _ _ separated _ _ _ _ =>
    cases lead with
    | nil => simp at separated
    | cons c lead =>
      rw [List.cons_append, List.cons_append, ahead_cons]
      rcases separated with letter | ⟨_, spaces⟩
      · cases letter
        decide
      · rw [spaces c (by simp)]
        decide

/-- A date with dashes is read from its parts. -/
private theorem dashedDate_of {year month mid after : List Char} {sep sep' : Char} {y m d : Nat}
    {time : Option TimeOfDay} (year_ : ShortNumber 4 4 year y) (sep_ : sep = '-' ∨ sep = '/')
    (month_ : ShortNumber 1 2 month m) (sep'_ : sep' = '-' ∨ sep' = '/')
    (day_ : shortNumber 1 2 mid = .ok (d, after))
    (time_ : optional colonTime after = .ok (time, rest)) :
    dashedDate (year ++ sep :: (month ++ sep' :: mid)) = .ok (timeOn y m d time, rest) := by
  unfold dashedDate
  rw [bind_of_ok (shortNumber_cons year_ (isDigit_separator sep_)),
    bind_of_ok (separator_of sep_),
    bind_of_ok (shortNumber_cons month_ (isDigit_separator sep'_)),
    bind_of_ok (separator_of sep'_), bind_of_ok day_, bind_of_ok time_]
  rfl

/-- A date in Chinese is read from its parts. It is not one with dashes, as `年` follows
the year. -/
private theorem chineseDate_of {year month day after : List Char} {y m d : Nat}
    {time : Option TimeOfDay} (year_ : ShortNumber 4 4 year y) (month_ : ShortNumber 1 2 month m)
    (day_ : ShortNumber 1 2 day d) (time_ : optional chineseTime after = .ok (time, rest)) :
    (orElse dashedDate chineseDate) (year ++ '年' :: (month ++ '月' :: (day ++ '日' :: after)))
      = .ok (timeOn y m d time, rest) := by
  have notDashed :
      dashedDate.Declines (year ++ '年' :: (month ++ '月' :: (day ++ '日' :: after))) :=
    Declines.after (shortNumber_cons year_ (by decide))
      (Declines.bind (satisfying_declines (ahead_cons.mpr (by decide))))
  refine orElse_eq_ok.mpr (.inr ⟨notDashed, ?_⟩)
  unfold chineseDate
  rw [bind_of_ok (shortNumber_cons year_ (by decide)), bind_of_ok (char_eq_ok.mpr ⟨rfl, rfl⟩),
    bind_of_ok (shortNumber_cons month_ (by decide)), bind_of_ok (char_eq_ok.mpr ⟨rfl, rfl⟩),
    bind_of_ok (shortNumber_cons day_ (by decide)), bind_of_ok (char_eq_ok.mpr ⟨rfl, rfl⟩),
    bind_of_ok time_]
  rfl

/-- A text of a date is read as a date of one of the two forms. -/
theorem localTime_of_dateText {time : LocalTime} (h : DateText written time)
    (ends : Detached rest) :
    (orElse dashedDate chineseDate) (written ++ rest) = .ok (time, rest) := by
  -- Each form is read by its own reader; what follows stops an optional time of day.
  cases h with
  | dashed year_ sep_ month_ sep'_ day_ =>
    simp only [List.append_assoc, List.cons_append]
    exact orElse_of_ok (dashedDate_of year_ sep_ month_ sep'_ (shortNumber_of day_ ends.noDigit)
      (colonTime_declines ends).optional)
  | dashedTime year_ sep_ month_ sep'_ day_ time_ =>
    simp only [List.append_assoc, List.cons_append]
    have loose : Ahead (fun c => c.isDigit = false ∧ c ≠ '.') rest :=
      ends.ahead.imp fun _ hc =>
        ⟨isDigit_of_startsNoToken hc.1, ne_of_startsNoToken hc.1 (by decide)⟩
    exact orElse_of_ok (dashedDate_of year_ sep_ month_ sep'_
      (shortNumber_of day_ (ahead_of_colonTimeText time_))
      (optional_of_ok (colonTime_of time_ loose)))
  | chinese year_ month_ day_ =>
    simp only [List.append_assoc, List.cons_append, List.nil_append]
    exact chineseDate_of year_ month_ day_ (chineseTime_declines ends).optional
  | chineseTime year_ month_ day_ time_ =>
    simp only [List.append_assoc, List.cons_append]
    exact chineseDate_of year_ month_ day_ (optional_of_ok (chineseTime_of time_ ends))

/-- The fields of a date are looked up in the calendar. -/
theorem date_of_localTime {g : Grammar} {time : LocalTime}
    (read : (orElse dashedDate chineseDate) text = .ok (time, rest)) :
    g.date text = (Instant.ofLocal? time g.now.offset).elim (reject .calendarDate text)
      (fun instant => .ok (instant, rest)) := by
  unfold date
  rw [read]
  simp only [bind, Except.bind]
  cases Instant.ofLocal? time g.now.offset <;> rfl

/-- Where neither form of a date is read, no date is. -/
theorem date_of_error {g : Grammar} {failure : Failure}
    (failed : (orElse dashedDate chineseDate) text = .error failure) :
    g.date text = .error failure := by
  unfold date
  rw [failed]
  rfl

theorem date_eq_ok {g : Grammar} {instant : Instant} : g.date text = .ok (instant, rest) ↔
    ∃ time, (orElse dashedDate chineseDate) text = .ok (time, rest) ∧
      Instant.ofLocal? time g.now.offset = some instant := by
  cases read : (orElse dashedDate chineseDate) text with
  | error failure => simp [date_of_error read]
  | ok result =>
    obtain ⟨time, mid⟩ := result
    rw [date_of_localTime read]
    cases known : Instant.ofLocal? time g.now.offset <;> simp [known, Parser.reject, and_comm]

/-- A text is refused as no date, or for a date that the calendar does not have. -/
theorem date_eq_error {g : Grammar} {failure : Failure} (h : g.date text = .error failure) :
    (orElse dashedDate chineseDate) text = .error failure ∨
      (reject .calendarDate : Parser Instant) text = .error failure := by
  cases read : (orElse dashedDate chineseDate) text with
  | error inner =>
    cases (date_of_error read).symm.trans h
    exact .inl rfl
  | ok result =>
    obtain ⟨time, mid⟩ := result
    rw [date_of_localTime read] at h
    cases known : Instant.ofLocal? time g.now.offset with
    | none =>
      rw [known] at h
      exact .inr h
    | some instant =>
      rw [known] at h
      cases h

/-- What the reader of dates reads is a date of the calendar. -/
theorem absoluteDate_of_date {g : Grammar} {instant : Instant}
    (h : g.date text = .ok (instant, rest)) :
    ∃ written, text = written ++ rest ∧ AbsoluteDate g.now.offset written instant := by
  obtain ⟨time, read, exists_⟩ := date_eq_ok.mp h
  have written : ∃ written, text = written ++ rest ∧ DateText written time := by
    rcases orElse_eq_ok.mp read with dashed | ⟨_, chinese⟩
    · exact dateText_of_dashedDate dashed
    · exact dateText_of_chineseDate chinese
  obtain ⟨written, split, spelled⟩ := written
  exact ⟨written, split, time, spelled, exists_⟩

/-- A date of the calendar is read, if what follows cannot go on with it. -/
theorem date_of_absoluteDate {g : Grammar} {instant : Instant}
    (h : AbsoluteDate g.now.offset written instant) (ends : Detached rest) :
    g.date (written ++ rest) = .ok (instant, rest) := by
  obtain ⟨time, spelled, exists_⟩ := h
  exact date_eq_ok.mpr ⟨time, localTime_of_dateText spelled ends, exists_⟩

/-- A whole text is read as a date exactly if it is one. -/
theorem complete_date_iff {g : Grammar} {instant : Instant} :
    complete g.date written = .ok instant ↔ AbsoluteDate g.now.offset written instant := by
  rw [complete_eq_ok]
  constructor
  · intro h
    obtain ⟨written', split, date⟩ := absoluteDate_of_date h
    rw [List.append_nil] at split
    rw [split]
    exact date
  · intro h
    have := date_of_absoluteDate h detached_nil
    rwa [List.append_nil] at this

/-- A field that cannot be read leaves room for another attempt. -/
private theorem not_committed_of_shortNumber {failure : Failure}
    (h : shortNumber least most text = .error failure) : failure.committed = false := by
  unfold shortNumber at h
  cases read : runBetween least most Char.isDigit text with
  | ok result =>
    rw [bind_of_ok (show _ = Except.ok (result.1, result.2) from read)] at h
    cases h
  | error failure' =>
    rw [bind_of_error read] at h
    cases h
    unfold runBetween at read
    simp only at read
    split at read
    · cases read
      rfl
    · cases read

/-- Behind a year within digits stands no separator, as neither a digit nor what follows
the digits is one. -/
private theorem ahead_of_year {run mid : List Char} (digits : ∀ c ∈ run, c.isDigit = true)
    (ends : Ahead (fun c => c.isDigit = false ∧ c ≠ '-' ∧ c ≠ '/' ∧ c ≠ '年') rest)
    (h : shortNumber 4 4 (run ++ rest) = .ok (n, mid)) :
    Ahead (fun c => c ≠ '-' ∧ c ≠ '/' ∧ c ≠ '年') mid := by
  obtain ⟨written, split, hw⟩ := shortNumber_eq_ok h
  -- The year ends behind the digits, or among them.
  rcases List.append_eq_append_iff.mp split with ⟨extra, rfl, rfl⟩ | ⟨extra, rfl, rfl⟩
  · cases extra with
    | nil =>
      rw [List.nil_append] at ends
      exact ends.imp fun _ hc => hc.2
    | cons c extra =>
      rw [List.cons_append, ahead_cons] at ends
      have digit := hw.digits c (by simp)
      rw [ends.1] at digit
      cases digit
  · cases extra with
    | nil =>
      rw [List.nil_append]
      exact ends.imp fun _ hc => hc.2
    | cons c extra =>
      rw [List.cons_append, ahead_cons]
      have digit := digits c (by simp)
      refine ⟨?_, ?_, ?_⟩ <;> (rintro rfl; revert digit; decide)

/-- Digits without a separator of dates behind them are no date. -/
theorem date_declines {g : Grammar} {run : List Char} (digits : ∀ c ∈ run, c.isDigit = true)
    (ends : Ahead (fun c => c.isDigit = false ∧ c ≠ '-' ∧ c ≠ '/' ∧ c ≠ '年') rest) :
    g.date.Declines (run ++ rest) := by
  have both : (orElse dashedDate chineseDate).Declines (run ++ rest) := by
    cases h : shortNumber 4 4 (run ++ rest) with
    | error failure =>
      have declines : (shortNumber 4 4).Declines (run ++ rest) :=
        ⟨failure, h, not_committed_of_shortNumber h⟩
      exact Declines.orElse (Declines.bind declines) (Declines.bind declines)
    | ok result =>
      obtain ⟨n, mid⟩ := result
      have next := ahead_of_year digits ends h
      refine Declines.orElse (Declines.after h (Declines.bind (satisfying_declines ?_)))
        (Declines.after h (Declines.bind (char_declines (next.imp fun _ hc => hc.2.2))))
      exact next.imp fun c hc => by simp [hc.1, hc.2.1]
  obtain ⟨failure, failed, notCommitted⟩ := both
  exact ⟨failure, date_of_error failed, notCommitted⟩

end Grammar

/-! ### Instants as they are written -/

theorem Date.daysInMonth_le (year : Int) (month : Nat) : daysInMonth year month ≤ 31 := by
  unfold daysInMonth
  split <;> (try split) <;> omega

/-- The month and the day of a date that the calendar has. -/
theorem Date.Exists.bounds {date : Date} (existing : date.Exists) :
    (1 ≤ date.month ∧ date.month ≤ 12) ∧ 1 ≤ date.day ∧ date.day ≤ 31 := by
  obtain ⟨first, last⟩ := existing
  exact ⟨month_mem_of_daysInMonth (Nat.le_trans first last), first,
    Nat.le_trans last (daysInMonth_le _ _)⟩

namespace LocalTime

/-- The calendar and the clock have every time that is counted from a number of
seconds. -/
theorem exists_ofSeconds (seconds : Int) {nanos : Nat} (h : nanos < 1000000000) :
    (ofSeconds seconds nanos).Exists := by
  refine ⟨(Date.dayNumber_ofDayNumber _).1, ?_, ?_, ?_, .inl h⟩
  · show (seconds % 86400 / 3600).toNat < 24
    omega
  · show (seconds % 3600 / 60).toNat < 60
    omega
  · show (seconds % 60).toNat < 60
    omega

/-- Outside a leap second the second is shown as it is. -/
theorem shownSecond_of_noLeap {time : LocalTime} (noLeap : time.nanos < 1000000000) :
    time.shownSecond = time.second := by
  rw [shownSecond, Nat.div_eq_of_lt noLeap, Nat.add_zero]

/-- Outside a leap second all of the nanoseconds are a fraction of the second. -/
theorem fraction_of_noLeap {time : LocalTime} (noLeap : time.nanos < 1000000000) :
    time.fraction = time.nanos :=
  Nat.mod_eq_of_lt noLeap

end LocalTime

namespace Instant

theorem nanos_lt_of_noLeap {instant : Instant} (h : instant.isLeap = false) :
    instant.nanos < 1000000000 := by
  simpa [isLeap] using h

/-- An instant outside a leap second is found again from the time that its offset
shows. -/
theorem ofLocal?_localTime {instant : Instant} (h : instant.isLeap = false) :
    ofLocal? instant.localTime instant.offset = some instant := by
  have existing : instant.localTime.Exists :=
    LocalTime.exists_ofSeconds _ (nanos_lt_of_noLeap h)
  have seconds : instant.localTime.seconds - instant.offset.seconds = instant.seconds := by
    rw [localTime, LocalTime.seconds_ofSeconds, Int.add_sub_cancel]
  unfold ofLocal?
  rw [if_pos existing, seconds]
  exact ofUnix?_seconds instant

end Instant

/-- A number that fits a width is written in that width. -/
theorem shortNumber_padded {width least n : Nat} (positive : 0 < width)
    (wide : least ≤ width) (h : n < 10 ^ width) : ShortNumber least width (padded width n) n where
  least := by rw [length_padded positive h]; exact wide
  most := by rw [length_padded positive h]
  digits := fun _ => isDigit_of_mem_padded
  value := numberOf_padded width n

/-- A year of four digits is written without a sign. -/
theorem shortNumber_year {y : Nat} (short : y ≤ 9999) :
    ShortNumber 4 4 (Timestamp.year (y : Int)) y := by
  rw [Timestamp.year, if_pos (by omega), Int.toNat_natCast]
  exact shortNumber_padded (by decide) (by decide) (by omega)

/-- The digits of a fraction are read as the fraction, whether they are three, six or
nine. -/
private theorem nanosOf_padded {width n : Nat} (positive : 0 < width) (most : width ≤ 9)
    (h : n < 10 ^ width) : Timestamp.nanosOf (padded width n) = n * 10 ^ (9 - width) := by
  have len := length_padded positive h
  have taken : (padded width n ++ List.replicate 9 '0').take 9
      = padded width n ++ List.replicate (9 - width) '0' := by
    rw [List.take_append, List.take_of_length_le (by omega), len, List.take_replicate]
    congr 2
    omega
  rw [Timestamp.nanosOf, taken, numberOf_append_zeros, numberOf_padded]

theorem fractionText_fraction {nanos : Nat} (h : nanos < 1000000000) :
    FractionText (Timestamp.fraction nanos) nanos := by
  have digits : ∀ {width n : Nat}, 0 < width → width ≤ 9 → n < 10 ^ width →
      n * 10 ^ (9 - width) = nanos → FractionText ('.' :: padded width n) nanos := by
    intro width n positive most bound same
    have text : FractionText ('.' :: padded width n) (Timestamp.nanosOf (padded width n)) := by
      refine .digits ?_ fun _ => isDigit_of_mem_padded
      have len := length_padded positive bound
      exact List.ne_nil_of_length_pos (by omega)
    rw [nanosOf_padded positive most bound, same] at text
    exact text
  unfold Timestamp.fraction
  split
  · rename_i zero
    rw [zero]
    exact .none
  split
  · exact digits (by decide) (by decide) (by omega) (by omega)
  split
  · exact digits (by decide) (by decide) (by omega) (by omega)
  · exact digits (by decide) (by decide) (by omega) (by omega)

/-- The text that is written for a local time with a year of four digits. -/
theorem dateText_moment (mode : Mode) {time : LocalTime} (existing : time.Exists)
    (noLeap : time.nanos < 1000000000) (short : 0 ≤ time.date.year ∧ time.date.year ≤ 9999) :
    DateText (Renderer.moment mode time) time := by
  unfold Renderer.moment
  rw [LocalTime.shownSecond_of_noLeap noLeap, LocalTime.fraction_of_noLeap noLeap]
  obtain ⟨⟨year, month, day⟩, hour, minute, second, nanos⟩ := time
  obtain ⟨date, hour24, minute60, second60, _⟩ := existing
  have bounds := date.bounds
  simp only at bounds hour24 minute60 second60 noLeap short
  obtain ⟨y, rfl⟩ := Int.eq_ofNat_of_zero_le short.1
  have year_ := shortNumber_year (by omega : y ≤ 9999)
  have two : ∀ {n : Nat}, n < 100 → ShortNumber 1 2 (padded 2 n) n :=
    fun h => shortNumber_padded (by decide) (by decide) h
  have fraction := fractionText_fraction noLeap
  cases mode with
  | dsl =>
    have space : [' '] = ['T'] ∨ ([' '] ≠ [] ∧ ∀ c ∈ [' '], c = ' ') := .inr ⟨by simp, by simp⟩
    have time := ColonTimeText.mk space (two (by omega : hour < 100))
      (two (by omega : minute < 100)) (two (by omega : second < 100)) fraction
    have date := DateText.dashedTime year_ (.inl rfl) (two (by omega : month < 100)) (.inl rfl)
      (two (by omega : day < 100)) time
    simp only [List.append_assoc, List.cons_append, List.nil_append] at date ⊢
    exact date
  | cnl =>
    have time := ChineseTimeText.seconds isBlank_of_mem_space (two (by omega : hour < 100))
      (two (by omega : minute < 100)) (two (by omega : second < 100)) fraction
    have date := DateText.chineseTime year_ (two (by omega : month < 100))
      (two (by omega : day < 100)) time
    simp only [List.append_assoc, List.cons_append, List.nil_append] at date ⊢
    exact date

/-- What is written for an instant is a date, and the date is that instant. -/
theorem absoluteDate_moment (mode : Mode) {instant : Instant} (noLeap : instant.isLeap = false)
    (short : Grammar.hasShortYear instant = true) :
    AbsoluteDate instant.offset (Renderer.moment mode instant.localTime) instant := by
  have nanos := Instant.nanos_lt_of_noLeap noLeap
  have existing := LocalTime.exists_ofSeconds (instant.seconds + instant.offset.seconds) nanos
  exact ⟨instant.localTime,
    dateText_moment mode existing nanos (Grammar.hasShortYear_iff.mp short),
    Instant.ofLocal?_localTime noLeap⟩

end ForumModeration
