import ForumModeration.Calendar.Instant
import ForumModeration.Text.Classes
import ForumModeration.Text.Digits

/-!
# `ForumModeration.Calendar.Timestamp`: instants as text

An instant is written as an RFC 3339 timestamp in its own offset. The fraction
of the second is left out or has three, six or nine digits, whichever is the
least that is exact. The offset is rounded to whole minutes.

The reader of timestamps is more generous than the writer: there may be blanks
in front of numbers and separators, fields may be short, and the offset may be
written in several ways.
-/

set_option autoImplicit false

namespace ForumModeration.Timestamp

open Text

/-- A year in four digits. Years outside 0 to 9999 have a sign and as many digits
as they need. -/
def year (y : Int) : List Char :=
  if 0 ≤ y ∧ y ≤ 9999 then padded 4 y.toNat
  else (if y < 0 then '-' else '+') :: padded 4 y.natAbs

/-- A fraction of a second with a point, in as many groups of three digits as it
needs, and nothing for a whole second. -/
def fraction (nanos : Nat) : List Char :=
  if nanos = 0 then []
  else if nanos % 1000000 = 0 then '.' :: padded 3 (nanos / 1000000)
  else if nanos % 1000 = 0 then '.' :: padded 6 (nanos / 1000)
  else '.' :: padded 9 nanos

/-- How a timestamp shows that there is no offset from UTC. -/
inductive ZeroOffset where
  | letter
  | digits
deriving DecidableEq, Repr

/-- An offset in hours and minutes, rounded to the nearer minute and half a
minute away from zero. -/
def offset (zero : ZeroOffset) (o : Offset) : List Char :=
  if zero = .letter ∧ o.seconds = 0 then ['Z']
  else
    let minutes := (o.seconds.natAbs + 30) / 60
    (if o.seconds < 0 then '-' else '+') ::
      padded 2 (minutes / 60) ++ ':' :: padded 2 (minutes % 60)

/-- The timestamp of an instant. -/
def write (zero : ZeroOffset) (instant : Instant) : List Char :=
  let time := instant.localTime
  year time.date.year ++ '-' :: padded 2 time.date.month ++ '-' :: padded 2 time.date.day ++
    'T' :: padded 2 time.hour ++ ':' :: padded 2 time.minute ++
    ':' :: padded 2 time.shownSecond ++ fraction time.fraction ++ offset zero instant.offset

/-! ### Reading -/

/-- A number of at most `most` digits at the start of a text, and what follows. -/
def number? (most : Nat) (text : List Char) : Option (Nat × List Char) :=
  let run := (text.takeWhile Char.isDigit).take most
  if run.isEmpty then none else some (numberOf run, text.drop run.length)

/-- A number as before with blanks in front of it. -/
def spacedNumber? (most : Nat) (text : List Char) : Option (Nat × List Char) :=
  number? most (skipBlanks text)

/-- A separator with blanks in front of it, and what follows. -/
def separator? (c : Char) (text : List Char) : Option (List Char) :=
  match skipBlanks text with
  | d :: rest => if d = c then some rest else none
  | [] => none

/-- A year of at most four digits, or of any number of digits after a sign. -/
def year? (text : List Char) : Option (Int × List Char) :=
  match skipBlanks text with
  | '-' :: rest => (number? rest.length rest).map fun (y, after) => (-(y : Int), after)
  | '+' :: rest => (number? rest.length rest).map fun (y, after) => ((y : Int), after)
  | rest => (number? 4 rest).map fun (y, after) => ((y : Int), after)

/-- The nanoseconds that the digits of a fraction stand for. Digits past the ninth
are dropped. -/
def nanosOf (fraction : List Char) : Nat :=
  numberOf ((fraction ++ List.replicate 9 '0').take 9)

/-- A fraction of a second, if the text goes on with a point, which digits have to
follow. -/
def fraction? (text : List Char) : Option (Nat × List Char) :=
  match text with
  | '.' :: rest =>
    let run := rest.takeWhile Char.isDigit
    if run.isEmpty then none else some (nanosOf run, rest.drop run.length)
  | _ => some (0, text)

/-- Two digits of which the first is at most `most`. -/
def twoDigits? (most : Char) : List Char → Option (Nat × List Char)
  | c :: d :: rest =>
    if c.isDigit && d.isDigit && c ≤ most then some (numberOf [c, d], rest) else none
  | _ => none

/-- The hours and minutes of an offset in seconds. Between them there may be
colons and blanks. -/
def hoursAndMinutes? (text : List Char) : Option (Int × List Char) := do
  let (hours, rest) ← twoDigits? '9' text
  let (minutes, rest) ← twoDigits? '5' (rest.dropWhile fun c => c = ':' || isBlank c)
  some ((hours * 3600 + minutes * 60 : Nat), rest)

/-- An offset: the letters UTC or Z, or a sign with hours and minutes. -/
def offset? (text : List Char) : Option (Int × List Char) :=
  match text with
  | '+' :: rest => hoursAndMinutes? rest
  -- the hyphen and the minus sign
  | '-' :: rest | '−' :: rest => (hoursAndMinutes? rest).map fun (o, after) => (-o, after)
  | c :: rest =>
    if sameLetter c 'z' then some (0, rest)
    else
      match rest with
      | d :: e :: rest =>
        if sameLetter c 'u' && sameLetter d 't' && sameLetter e 'c' then some (0, rest) else none
      | _ => none
  | [] => none

/-- The years whose dates can be told. -/
def inRange (date : Date) : Bool :=
  -262143 ≤ date.year && date.year ≤ 262142

/-- The instant that a text is a timestamp of. Second 60 is the leap second after
second 59. -/
def read? (text : List Char) : Option Instant := do
  let (y, rest) ← year? text
  let rest ← separator? '-' rest
  let (month, rest) ← spacedNumber? 2 rest
  let rest ← separator? '-' rest
  let (day, rest) ← spacedNumber? 2 rest
  -- No blanks may stand in front of this separator, as one of them may be a blank itself.
  let rest ← match rest with
    | c :: rest => if c = 'T' || c = 't' || c = ' ' then some rest else none
    | [] => none
  let (hour, rest) ← spacedNumber? 2 rest
  let rest ← separator? ':' rest
  let (minute, rest) ← spacedNumber? 2 rest
  let rest ← separator? ':' rest
  let (second, rest) ← spacedNumber? 2 rest
  let (nanos, rest) ← fraction? rest
  let (o, rest) ← offset? (skipBlanks rest)
  guard (skipBlanks rest).isEmpty
  let o ← Offset.ofSeconds? o
  let date : Date := ⟨y, month, day⟩
  guard (inRange date)
  if second = 60 then Instant.ofLocal? ⟨date, hour, minute, 59, nanos + 1000000000⟩ o
  else Instant.ofLocal? ⟨date, hour, minute, second, nanos⟩ o

end ForumModeration.Timestamp
