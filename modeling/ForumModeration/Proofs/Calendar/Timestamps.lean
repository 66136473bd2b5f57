import ForumModeration.Proofs.Grammar.Dates

/-!
# `ForumModeration.Proofs.Calendar.Timestamps`: timestamps are read back

A timestamp shows an instant in its own offset. The instant is found again from it
(`read?_write`) if the timestamp shows all of it: it lies outside of leap seconds, its year has
four digits, and its offset is one of whole minutes.

The readers of the parts come first, each for any text that may follow the part.
-/

set_option autoImplicit false

namespace ForumModeration

open Text

/-- The whole of an instant can be told from its timestamp. -/
structure Instant.Portable (time : Instant) : Prop where
  noLeap : time.isLeap = false
  shortYear : Grammar.hasShortYear time = true
  wholeMinutes : time.offset.seconds % 60 = 0

namespace Timestamp

variable {run rest : List Char} {least most n : Nat}

/-! ### Numbers and separators -/

/-- A field starts with a digit. -/
private theorem exists_digit (number : ShortNumber least most run n) (positive : 0 < least) :
    ∃ c tail, run = c :: tail ∧ c.isDigit = true := by
  cases run with
  | nil => exact absurd number.least (Nat.not_le_of_lt positive)
  | cons c tail => exact ⟨c, tail, rfl, number.digits c (by simp)⟩

theorem number?_of (number : ShortNumber least most run n) (positive : 0 < least)
    (ends : Ahead (Char.isDigit · = false) rest) :
    number? most (run ++ rest) = some (n, rest) := by
  have taken : ((run ++ rest).takeWhile Char.isDigit).take most = run := by
    rw [takeWhile_append_of_ahead number.digits ends, List.take_of_length_le number.most]
  have nonempty : run.isEmpty = false := by
    obtain ⟨c, tail, rfl, -⟩ := exists_digit number positive
    rfl
  unfold number?
  simp only [taken, nonempty, Bool.false_eq_true, if_false, number.value, List.drop_left]

theorem spacedNumber?_of (number : ShortNumber least most run n) (positive : 0 < least)
    (ends : Ahead (Char.isDigit · = false) rest) :
    spacedNumber? most (run ++ rest) = some (n, rest) := by
  have noBlank : skipBlanks (run ++ rest) = run ++ rest := by
    obtain ⟨c, tail, rfl, digit⟩ := exists_digit number positive
    exact skipBlanks_eq_of_not_blank (isBlank_eq_false_of_isDigit digit)
  rw [spacedNumber?, noBlank]
  exact number?_of number positive ends

theorem separator?_cons {c : Char} (h : isBlank c = false) :
    separator? c (c :: rest) = some rest := by
  unfold separator?
  rw [skipBlanks_eq_of_not_blank h]
  exact if_pos rfl

/-- A year of four digits has no sign. -/
theorem year?_of (number : ShortNumber 4 4 run n) (ends : Ahead (Char.isDigit · = false) rest) :
    year? (run ++ rest) = some ((n : Int), rest) := by
  have read := number?_of number (by decide) ends
  obtain ⟨c, tail, rfl, digit⟩ := exists_digit number (by decide)
  unfold year?
  rw [List.cons_append, skipBlanks_eq_of_not_blank (isBlank_eq_false_of_isDigit digit)]
  split
  · rename_i same
    cases same
    cases digit
  · rename_i same
    cases same
    cases digit
  · rw [← List.cons_append, read]
    rfl

theorem fraction?_of (fraction : FractionText run n)
    (ends : Ahead (fun c => c.isDigit = false ∧ c ≠ '.') rest) :
    fraction? (run ++ rest) = some (n, rest) := by
  cases fraction with
  | none =>
    unfold fraction?
    rw [List.nil_append]
    split
    · exact absurd rfl (ahead_cons.mp ends).2
    · rfl
  | @digits run nonempty digits =>
    have taken := takeWhile_append_of_ahead digits (ends.imp fun _ hc => hc.1)
    have notEmpty : run.isEmpty = false := by simpa using nonempty
    rw [List.cons_append]
    unfold fraction?
    simp only [taken, notEmpty, Bool.false_eq_true, if_false, List.drop_left]

/-! ### Offsets -/

/-- Two digits are written for a number below 100. -/
private theorem padded_two : ∀ n : Fin 100,
    padded 2 n.val = [Nat.digitChar (n.val / 10), Nat.digitChar (n.val % 10)] := by
  decide

private theorem twoDigits?_padded {most : Char} {n : Nat} (h : n < 100)
    (first : Nat.digitChar (n / 10) ≤ most) :
    twoDigits? most (padded 2 n ++ rest) = some (n, rest) := by
  have written := padded_two ⟨n, h⟩
  have digits : ∀ c ∈ padded 2 n, c.isDigit = true := fun _ => isDigit_of_mem_padded
  have number := numberOf_padded 2 n
  simp only at written
  rw [written] at digits number ⊢
  show (if _ then some (numberOf _, rest) else none) = _
  rw [digits _ (by simp), digits _ (by simp), number, decide_eq_true first]
  rfl

/-- The first digit of a number of minutes. -/
private theorem digitChar_minutes : ∀ n : Fin 60, Nat.digitChar (n.val / 10) ≤ '5' := by
  decide

private theorem digitChar_hours : ∀ n : Fin 100, Nat.digitChar (n.val / 10) ≤ '9' := by
  decide

theorem hoursAndMinutes?_padded {hours minutes : Nat} (h : hours < 100) (m : minutes < 60) :
    hoursAndMinutes? (padded 2 hours ++ ':' :: padded 2 minutes)
      = some (((hours * 3600 + minutes * 60 : Nat) : Int), []) := by
  have colon : (':' :: padded 2 minutes).dropWhile (fun c => c = ':' || isBlank c)
      = padded 2 minutes := by
    have written := padded_two ⟨minutes, by omega⟩
    have digits : ∀ c ∈ padded 2 minutes, c.isDigit = true := fun _ => isDigit_of_mem_padded
    simp only at written
    rw [written] at digits ⊢
    have digit := digits _ List.mem_cons_self
    have noColon : ∀ {c : Char}, c.isDigit = true → (c = ':' || isBlank c) = false := by
      intro c digit
      rw [isBlank_eq_false_of_isDigit digit, Bool.or_false, decide_eq_false_iff_not]
      rintro rfl
      cases digit
    rw [List.dropWhile_cons_of_pos (by decide), List.dropWhile_cons_of_neg]
    rw [noColon digit]
    decide
  have second : twoDigits? '5' (padded 2 minutes) = some (minutes, []) := by
    have read := @twoDigits?_padded [] '5' minutes (by omega) (digitChar_minutes ⟨minutes, m⟩)
    rwa [List.append_nil] at read
  unfold hoursAndMinutes?
  rw [twoDigits?_padded h (digitChar_hours ⟨hours, h⟩)]
  simp only [Option.bind_eq_bind, Option.bind_some, colon, second]

/-- An offset of whole minutes is read back. -/
theorem offset?_offset {o : Offset} (wholeMinutes : o.seconds % 60 = 0) :
    offset? (offset .letter o) = some (o.seconds, []) := by
  have day := o.lt_day
  have whole : (o.seconds.natAbs + 30) / 60 = o.seconds.natAbs / 60 := by omega
  have read := @hoursAndMinutes?_padded (o.seconds.natAbs / 60 / 60) (o.seconds.natAbs / 60 % 60)
    (by omega) (by omega)
  have amount : o.seconds.natAbs / 60 / 60 * 3600 + o.seconds.natAbs / 60 % 60 * 60
      = o.seconds.natAbs := by omega
  rw [amount] at read
  unfold offset
  split
  · rename_i zero
    rw [show o.seconds = 0 from zero.2]
    rfl
  · simp only [whole]
    split
    · have sign : -(o.seconds.natAbs : Int) = o.seconds := by omega
      rw [List.cons_append]
      show (hoursAndMinutes? (_ ++ _)).map _ = _
      rw [read, Option.map_some]
      show some (-(o.seconds.natAbs : Int), _) = _
      rw [sign]
    · have sign : (o.seconds.natAbs : Int) = o.seconds := by omega
      rw [List.cons_append]
      show hoursAndMinutes? (_ ++ _) = _
      rw [read, sign]

/-- An offset starts with a letter or a sign. -/
private theorem offset_start (zero : ZeroOffset) (o : Offset) :
    ∃ c tail, offset zero o = c :: tail ∧ isBlank c = false ∧ c.isDigit = false ∧ c ≠ '.' := by
  unfold offset
  split
  · exact ⟨'Z', [], rfl, by decide⟩
  · simp only
    split
    · exact ⟨'-', _, rfl, by decide⟩
    · exact ⟨'+', _, rfl, by decide⟩

private theorem skipBlanks_offset (zero : ZeroOffset) (o : Offset) :
    skipBlanks (offset zero o) = offset zero o := by
  obtain ⟨c, tail, start, noBlank, -⟩ := offset_start zero o
  rw [start, skipBlanks_eq_of_not_blank noBlank]

/-- An offset goes on neither with the digits of a fraction nor with its point. -/
private theorem ahead_offset (zero : ZeroOffset) (o : Offset) :
    Ahead (fun c => c.isDigit = false ∧ c ≠ '.') (offset zero o) := by
  obtain ⟨c, tail, start, -, apart⟩ := offset_start zero o
  rw [start]
  exact ahead_cons.mpr apart

/-- With or without a fraction, the digits of the second have ended. -/
private theorem ahead_fraction {nanos : Nat} (h : nanos < 1000000000)
    (ends : Ahead (Char.isDigit · = false) rest) :
    Ahead (Char.isDigit · = false) (fraction nanos ++ rest) := by
  have text := fractionText_fraction h
  generalize fraction nanos = written at text
  cases text with
  | none => exact ends
  | digits _ _ => exact ahead_cons.mpr rfl

/-! ### Timestamps -/

/-- A field of two digits, in front of anything but a digit. -/
private theorem field?_padded (h : n < 100) (ends : Ahead (Char.isDigit · = false) rest) :
    spacedNumber? 2 (padded 2 n ++ rest) = some (n, rest) :=
  spacedNumber?_of (@shortNumber_padded 2 1 n (by decide) (by decide) h) (by decide) ends

/-- A local time of four digits a year, with an offset of whole minutes, is read part after
part. -/
private theorem read?_fields {time : LocalTime} {o : Offset} {instant : Instant}
    (existing : time.Exists) (noLeap : time.nanos < 1000000000)
    (short : 0 ≤ time.date.year ∧ time.date.year ≤ 9999) (wholeMinutes : o.seconds % 60 = 0)
    (found : Instant.ofLocal? time o = some instant) :
    read? (year time.date.year ++ '-' :: (padded 2 time.date.month ++ '-' ::
      (padded 2 time.date.day ++ 'T' :: (padded 2 time.hour ++ ':' :: (padded 2 time.minute ++
        ':' :: (padded 2 time.second ++ (fraction time.nanos ++ offset .letter o)))))))
      = some instant := by
  obtain ⟨⟨year, month, day⟩, hour, minute, second, nanos⟩ := time
  obtain ⟨date, hour24, minute60, second60, _⟩ := existing
  have bounds := date.bounds
  simp only at bounds hour24 minute60 second60 noLeap short found ⊢
  obtain ⟨y, rfl⟩ := Int.eq_ofNat_of_zero_le short.1
  have year_ := shortNumber_year (by omega : y ≤ 9999)
  have atOffset := ahead_offset .letter o
  have atFraction := ahead_fraction noLeap (atOffset.imp fun _ hc => hc.1)
  have dash := fun rest => @separator?_cons rest '-' (by decide)
  have colon := fun rest => @separator?_cons rest ':' (by decide)
  have inRange_ : inRange ⟨(y : Int), month, day⟩ = true := by
    simp only [inRange, Bool.and_eq_true, decide_eq_true_eq]
    omega
  unfold read?
  -- Part after part, in the order of the timestamp.
  refine Option.bind_eq_some_iff.mpr ⟨_, year?_of year_ (ahead_cons.mpr rfl), ?_⟩
  refine Option.bind_eq_some_iff.mpr ⟨_, dash _, ?_⟩
  refine Option.bind_eq_some_iff.mpr ⟨_, field?_padded (by omega) (ahead_cons.mpr rfl), ?_⟩
  refine Option.bind_eq_some_iff.mpr ⟨_, dash _, ?_⟩
  refine Option.bind_eq_some_iff.mpr ⟨_, field?_padded (by omega) (ahead_cons.mpr rfl), ?_⟩
  refine Option.bind_eq_some_iff.mpr ⟨_, field?_padded (by omega) (ahead_cons.mpr rfl), ?_⟩
  refine Option.bind_eq_some_iff.mpr ⟨_, colon _, ?_⟩
  refine Option.bind_eq_some_iff.mpr ⟨_, field?_padded (by omega) (ahead_cons.mpr rfl), ?_⟩
  refine Option.bind_eq_some_iff.mpr ⟨_, colon _, ?_⟩
  refine Option.bind_eq_some_iff.mpr ⟨_, field?_padded (by omega) atFraction, ?_⟩
  refine Option.bind_eq_some_iff.mpr
    ⟨_, fraction?_of (fractionText_fraction noLeap) atOffset, ?_⟩
  refine Option.bind_eq_some_iff.mpr ⟨(o.seconds, []), ?_, ?_⟩
  · show offset? (skipBlanks (offset .letter o)) = _
    rw [skipBlanks_offset, offset?_offset wholeMinutes]
  refine Option.bind_eq_some_iff.mpr ⟨(), rfl, ?_⟩
  refine Option.bind_eq_some_iff.mpr ⟨_, Offset.ofSeconds?_seconds o, ?_⟩
  refine Option.bind_eq_some_iff.mpr ⟨(), ?_, ?_⟩
  · show guard (inRange ⟨(y : Int), month, day⟩ = true) = _
    rw [inRange_]
    rfl
  · show (if second = 60 then _ else Instant.ofLocal? _ _) = _
    rw [if_neg (by omega)]
    exact found

/-- The timestamp of an instant that can be told from it is read as that instant, in the same
offset. -/
theorem read?_write {time : Instant} (portable : time.Portable) :
    read? (write .letter time) = some time := by
  obtain ⟨noLeap, short, wholeMinutes⟩ := portable
  have nanos : time.localTime.nanos < 1000000000 := Instant.nanos_lt_of_noLeap noLeap
  have existing : time.localTime.Exists := LocalTime.exists_ofSeconds _ nanos
  unfold write
  simp only [LocalTime.shownSecond_of_noLeap nanos, LocalTime.fraction_of_noLeap nanos,
    List.append_assoc, List.cons_append]
  exact read?_fields existing nanos (Grammar.hasShortYear_iff.mp short) wholeMinutes
    (Instant.ofLocal?_localTime noLeap)

end Timestamp

end ForumModeration
