/-!
# Instants as text

An instant is a number of milliseconds since the beginning of 1970, UTC.  It is written as a date in
the Gregorian calendar and a time of day: `2023-11-14T22:13:20.123+00:00`.  The fraction is left out
of whole seconds, a year of more than four digits carries a plus sign, and past the last year the
calendar covers only the number is left.
-/

namespace EventRelay.Calendar

/-- A day of the Gregorian calendar. -/
structure Date where
  /-- The year. -/
  year : Nat
  /-- The month, from 1. -/
  month : Nat
  /-- The day of the month, from 1. -/
  day : Nat
  deriving Repr, DecidableEq

/-- The days from 1 March of the year 0 to the beginning of 1970. -/
def daysBefore1970 : Nat := 719468

/-- The days in a cycle of 400 years. -/
def daysPerCycle : Nat := 146097

/-- The date that many days after the beginning of 1970.  Years are counted from 1 March, so that
the day that only leap years have comes last, in cycles of 400 years. -/
def Date.ofDays (days : Nat) : Date :=
  let day := (days + daysBefore1970) % daysPerCycle
  let yearOfCycle := (day - day / 1460 + day / 36524 - day / 146096) / 365
  let dayOfYear := day - (365 * yearOfCycle + yearOfCycle / 4 - yearOfCycle / 100)
  let fromMarch := (5 * dayOfYear + 2) / 153
  let year := yearOfCycle + (days + daysBefore1970) / daysPerCycle * 400
  { year := if fromMarch < 10 then year else year + 1
    month := if fromMarch < 10 then fromMarch + 3 else fromMarch - 9
    day := dayOfYear - (153 * fromMarch + 2) / 5 + 1 }

/-- A number in decimal, with zeros in front up to a width. -/
def padded (width n : Nat) : String :=
  let digits := toString n
  "".pushn '0' (width - digits.length) ++ digits

/-- The date: year, month and day joined by hyphens. -/
def Date.text (d : Date) : String :=
  let sign := if d.year < 10000 then "" else "+"
  s!"{sign}{padded 4 d.year}-{padded 2 d.month}-{padded 2 d.day}"

/-- The last millisecond of the last year that the calendar covers, 262142. -/
def lastInstant : Nat := 8210266876799999

/-- The time of day, from the milliseconds since midnight. -/
def timeText (millis : Nat) : String :=
  let seconds := millis / 1000
  let fraction := if millis % 1000 = 0 then "" else "." ++ padded 3 (millis % 1000)
  s!"{padded 2 (seconds / 3600)}:{padded 2 (seconds / 60 % 60)}:{padded 2 (seconds % 60)}{fraction}"

/-- An instant as text. -/
def instantText (millis : Nat) : String :=
  if millis ≤ lastInstant then
    s!"{(Date.ofDays (millis / 86400000)).text}T{timeText (millis % 86400000)}+00:00"
  else toString millis

end EventRelay.Calendar
