import Provenance.Timestamp

/-!
# The clock

A computer counts the time from the start of the year 1970. Here that count becomes a point of time, and the
number that new identities start from.
-/

namespace Provenance.Clock

/-- The number of days in 400 years. -/
def cycleDays : Nat := 146097

/-- The number of days from the first of March of the year 0 to the start of the year 1970. -/
def epochDay : Nat := 719468

/-- The year, month and day of a day counted from the start of 1970. Years are counted from March on, so that
a leap day is the last day of its year. -/
def date (day : Nat) : Nat × Nat × Nat :=
  let day := day + epochDay
  let inCycle := day % cycleDays
  let year := (inCycle - inCycle / 1460 + inCycle / 36524 - inCycle / 146096) / 365
  let inYear := inCycle - (365 * year + year / 4 - year / 100)
  let month := (5 * inYear + 2) / 153
  let inMonth := inYear - (153 * month + 2) / 5 + 1
  let year := year + day / cycleDays * 400
  if month < 10 then (year, month + 3, inMonth) else (year + 1, month - 9, inMonth)

/-- The point of time a number of nanoseconds after the start of 1970. -/
def timestamp (nanos : Nat) : Timestamp :=
  let seconds := nanos / 1000000000
  let (year, month, day) := date (seconds / 86400)
  let inDay := seconds % 86400
  (Timestamp.make? year month day (inDay / 3600) (inDay / 60 % 60) (inDay % 60)
    (nanos % 1000000000)).getD Timestamp.epoch

/-- The number that identities of a command start from: the milliseconds since the start of 1970, the marks of
identities that are ordered by time, and random digits. -/
def firstId (nanos random : Nat) : Nat :=
  (nanos / 1000000 % 1 <<< 48) <<< 80 + 7 <<< 76 + (random >>> 60 % 1 <<< 12) <<< 64 + 2 <<< 62 +
    random % 1 <<< 60

example : date 0 = (1970, 1, 1) := by decide

example : date 11016 = (2000, 2, 29) := by decide

end Provenance.Clock
