import ForumModeration.Calendar.Date

/-!
# `ForumModeration.Calendar.Instant`: points of time and the clock's view of them

An instant is a point of time together with the offset from UTC in which it is
shown. Only the point of time counts when instants are compared
(`Instant.sameTime`). Its nanoseconds go past a second only inside a leap
second, which follows the last second of a minute.

Local times are what an offset shows: a date and a time of day.

* `localTime_ofLocal?`: an instant made from a local time shows that local time.
-/

set_option autoImplicit false

namespace ForumModeration

/-- An offset from UTC in seconds, east positive, of less than a day. -/
structure Offset where
  seconds : Int
  lt_day : -86400 < seconds ∧ seconds < 86400
deriving DecidableEq, Repr

namespace Offset

/-- The offset of the given number of seconds, if it is less than a day. -/
def ofSeconds? (seconds : Int) : Option Offset :=
  if h : -86400 < seconds ∧ seconds < 86400 then some ⟨seconds, h⟩ else none

/-- No offset. -/
def utc : Offset := ⟨0, by decide⟩

/-- Eight hours east, in which dates without an offset are read by default. -/
def china : Offset := ⟨28800, by decide⟩

theorem ofSeconds?_seconds (offset : Offset) : ofSeconds? offset.seconds = some offset := by
  simp [ofSeconds?, offset.lt_day]

end Offset

/-- The points of time that can be told: those of the years -262143 to 262142, a
leap second only at the end of a minute. -/
def IsPointOfTime (seconds : Int) (nanos : Nat) : Prop :=
  -8334601228800 ≤ seconds ∧ seconds ≤ 8210266876799 ∧
    (nanos < 1000000000 ∨ (nanos < 2000000000 ∧ seconds % 60 = 59))

instance (seconds : Int) (nanos : Nat) : Decidable (IsPointOfTime seconds nanos) :=
  inferInstanceAs (Decidable (_ ∧ _ ∧ _))

/-- A point of time, as seconds since the start of 1970 in UTC and nanoseconds
from there, and the offset in which it is shown. -/
structure Instant where
  seconds : Int
  nanos : Nat
  offset : Offset
  pointOfTime : IsPointOfTime seconds nanos
deriving DecidableEq, Repr

/-- A date and a time of day, without an offset. -/
structure LocalTime where
  date : Date
  hour : Nat
  minute : Nat
  second : Nat
  nanos : Nat
deriving DecidableEq, Repr

namespace LocalTime

/-- Whether the calendar has the date and the day has the time. A leap second
follows second 59. -/
def Exists (time : LocalTime) : Prop :=
  time.date.Exists ∧ time.hour < 24 ∧ time.minute < 60 ∧ time.second < 60 ∧
    (time.nanos < 1000000000 ∨ (time.nanos < 2000000000 ∧ time.second = 59))

instance (time : LocalTime) : Decidable time.Exists :=
  inferInstanceAs (Decidable (_ ∧ _ ∧ _ ∧ _ ∧ _))

/-- Seconds from the start of 1970 to the time, on the same clock. -/
def seconds (time : LocalTime) : Int :=
  time.date.dayNumber * 86400 + time.hour * 3600 + time.minute * 60 + time.second

/-- The local time a number of seconds after the start of 1970. -/
def ofSeconds (seconds : Int) (nanos : Nat) : LocalTime where
  date := .ofDayNumber (seconds / 86400)
  hour := (seconds % 86400 / 3600).toNat
  minute := (seconds % 3600 / 60).toNat
  second := (seconds % 60).toNat
  nanos := nanos

/-- The second that is shown: a leap second is shown as one more. -/
def shownSecond (time : LocalTime) : Nat :=
  time.second + time.nanos / 1000000000

/-- The fraction of the second in nanoseconds. -/
def fraction (time : LocalTime) : Nat :=
  time.nanos % 1000000000

theorem ofSeconds_seconds {time : LocalTime} (h : time.Exists) :
    ofSeconds time.seconds time.nanos = time := by
  obtain ⟨date, hour, minute, second, nanos⟩ := time
  obtain ⟨hd, hh, hm, hs, _⟩ := h
  simp only at hd hh hm hs
  simp only [ofSeconds, seconds, mk.injEq, and_true]
  refine ⟨?_, by omega, by omega, by omega⟩
  rw [show (date.dayNumber * 86400 + hour * 3600 + minute * 60 + second) / 86400 = date.dayNumber by
    omega]
  exact Date.ofDayNumber_dayNumber hd

theorem seconds_ofSeconds (seconds : Int) (nanos : Nat) :
    (ofSeconds seconds nanos).seconds = seconds := by
  simp only [LocalTime.seconds, ofSeconds, (Date.dayNumber_ofDayNumber _).2]
  omega

end LocalTime

namespace Instant

/-- The instant at a point of time, if it is one. -/
def ofUnix? (seconds : Int) (nanos : Nat) (offset : Offset) : Option Instant :=
  if h : IsPointOfTime seconds nanos then some ⟨seconds, nanos, offset, h⟩ else none

/-- The date and time of day that the instant's offset shows. -/
def localTime (instant : Instant) : LocalTime :=
  .ofSeconds (instant.seconds + instant.offset.seconds) instant.nanos

/-- The instant that an offset shows as the given local time, if there is one. -/
def ofLocal? (time : LocalTime) (offset : Offset) : Option Instant :=
  if time.Exists then ofUnix? (time.seconds - offset.seconds) time.nanos offset else none

/-- The same point of time shown in another offset. -/
def withOffset (instant : Instant) (offset : Offset) : Instant :=
  { instant with offset }

/-- Whether two instants are the same point of time. -/
def sameTime (a b : Instant) : Bool :=
  a.seconds = b.seconds && a.nanos = b.nanos

/-- Whether the instant lies in a leap second. -/
def isLeap (instant : Instant) : Bool :=
  1000000000 ≤ instant.nanos

/-- The instant a number of seconds earlier. Going back from within a leap second
starts at the second after it; going back no time at all stays there. -/
def before? (instant : Instant) (seconds : Nat) : Option Instant :=
  if seconds = 0 then some instant
  else if instant.isLeap then
    ofUnix? (instant.seconds + 1 - seconds) (instant.nanos - 1000000000) instant.offset
  else ofUnix? (instant.seconds - seconds) instant.nanos instant.offset

theorem sameTime_withOffset (instant : Instant) (offset : Offset) :
    (instant.withOffset offset).sameTime instant = true := by
  simp [sameTime, withOffset]

theorem ofUnix?_seconds (instant : Instant) :
    ofUnix? instant.seconds instant.nanos instant.offset = some instant := by
  simp [ofUnix?, instant.pointOfTime]

theorem localTime_ofLocal? {time : LocalTime} {offset : Offset} {instant : Instant}
    (h : ofLocal? time offset = some instant) :
    instant.localTime = time ∧ instant.offset = offset := by
  simp only [ofLocal?, ofUnix?] at h
  split at h
  · rename_i existing
    split at h
    · cases h
      refine ⟨?_, rfl⟩
      -- The offset that is taken off to store the instant is added again to show it.
      rw [localTime, Int.sub_add_cancel]
      exact LocalTime.ofSeconds_seconds existing
    · cases h
  · cases h

end Instant

end ForumModeration
