import ForumModeration.Calendar.Timestamp
import ForumModeration.Grammar.Basic

/-!
# `ForumModeration.Grammar.Moment`: dates and relative times

A date is written with dashes or slashes, or with the Chinese words for year,
month and day. A time of day may follow. It is read as the local time in the
grammar's offset. A date that the calendar does not have is refused for good.

A relative time is an amount, a unit and perhaps the word for "ago". It is
counted back from the present and has to end up in a year of four digits, the
years that dates can be written in.
-/

set_option autoImplicit false

namespace ForumModeration.Grammar

open Text ForumModeration.Parser

/-- A number of `least` to `most` digits. -/
def shortNumber (least most : Nat) : Parser Nat := do
  let run ← runBetween least most Char.isDigit
  return numberOf run

/-- A fraction of a second, as nanoseconds. -/
def fractionOfSecond : Parser Nat := do
  let _ ← char '.'
  let run ← run Char.isDigit
  return Timestamp.nanosOf run

/-- Hours, minutes, seconds and nanoseconds of a time of day. -/
abbrev TimeOfDay := Nat × Nat × Nat × Nat

/-- A date with a time of day, midnight if there is none. -/
def timeOn (year month day : Nat) (time : Option TimeOfDay) : LocalTime :=
  match time with
  | some (hour, minute, second, nanos) => ⟨⟨year, month, day⟩, hour, minute, second, nanos⟩
  | none => ⟨⟨year, month, day⟩, 0, 0, 0, 0⟩

/-- Spaces or the letter T, and a time of day written with colons. -/
def colonTime : Parser TimeOfDay := do
  let _ ← orElse (run (· = ' ')) (do let c ← char 'T'; return [c])
  let hour ← shortNumber 1 2
  let _ ← char ':'
  let minute ← shortNumber 1 2
  let _ ← char ':'
  let second ← shortNumber 1 2
  let nanos ← optional fractionOfSecond
  return (hour, minute, second, nanos.getD 0)

/-- The seconds of a time of day written in Chinese. -/
def chineseSeconds : Parser (Nat × Nat) := do
  let second ← shortNumber 1 2
  let nanos ← optional fractionOfSecond
  let _ ← char '秒'
  return (second, nanos.getD 0)

/-- A time of day written in Chinese. -/
def chineseTime : Parser TimeOfDay := do
  blanks
  let hour ← shortNumber 1 2
  let _ ← char '时'
  let minute ← shortNumber 1 2
  let _ ← char '分'
  let seconds ← optional chineseSeconds
  return (hour, minute, seconds.getD (0, 0))

/-- Year, month and day with dashes or slashes between them. -/
def dashedDate : Parser LocalTime := do
  let year ← shortNumber 4 4
  let _ ← satisfying fun c => c = '-' || c = '/'
  let month ← shortNumber 1 2
  let _ ← satisfying fun c => c = '-' || c = '/'
  let day ← shortNumber 1 2
  let time ← optional colonTime
  return timeOn year month day time

/-- Year, month and day written in Chinese. -/
def chineseDate : Parser LocalTime := do
  let year ← shortNumber 4 4
  let _ ← char '年'
  let month ← shortNumber 1 2
  let _ ← char '月'
  let day ← shortNumber 1 2
  let _ ← char '日'
  let time ← optional chineseTime
  return timeOn year month day time

/-- An absolute date, in the offset of the present. -/
def date (g : Grammar) : Parser Instant := fun text => do
  let (time, rest) ← orElse dashedDate chineseDate text
  match Instant.ofLocal? time g.now.offset with
  | some instant => .ok (instant, rest)
  -- The failure stands at the first character of the date.
  | none => reject .calendarDate text

/-- Whether the year that an instant shows can be written in four digits. -/
def hasShortYear (instant : Instant) : Bool :=
  0 ≤ instant.localTime.date.year && instant.localTime.date.year ≤ 9999

/-- The largest amount of a unit. -/
def maxAmount : Nat :=
  0x7FFFFFFFFFFFFFFF

/-- The instant an amount of a unit before the present, if it can be written. -/
def backFromNow? (g : Grammar) (unit : TimeUnit) (amount : Nat) : Option Instant := do
  let span ← unit.span? amount
  let instant ← g.now.before? span.toNat
  if hasShortYear instant then some instant else none

/-- A relative time. -/
def relative (g : Grammar) : Parser Instant := do
  let run ← run Char.isDigit
  -- Digits of such an amount may still be a number, which is tried next.
  if maxAmount < numberOf run then fail
  else
    let unit ← g.timeUnit
    let _ ← optional (g.symbol .ago)
    match g.backFromNow? unit (numberOf run) with
    | some instant => return instant
    | none => reject .timeInRange

end ForumModeration.Grammar
