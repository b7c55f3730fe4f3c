import Provenance.Text.Basic
import Provenance.Text.Digits

/-!
# Points of time

A point of time is a date and a time of day at Greenwich. It is written in the common form for documents
and read from that form with some freedom: blank space between the parts, another offset from Greenwich,
any number of digits after the second.
-/

namespace Provenance

namespace Calendar

/-- Whether a year has a 29th of February. -/
def isLeap (year : Int) : Bool :=
  year % 4 == 0 && (year % 100 != 0 || year % 400 == 0)

/-- The number of days of a month. -/
def daysOf (year : Int) (month : Nat) : Nat :=
  if month = 2 then (if isLeap year then 29 else 28)
  else if month = 4 ∨ month = 6 ∨ month = 9 ∨ month = 11 then 30
  else 31

/-- The first year that a date may have. -/
def firstYear : Int := -262143

/-- The last year that a date may have. -/
def lastYear : Int := 262142

/-- Whether there is a date with these parts. -/
def isDate (year : Int) (month day : Nat) : Bool :=
  firstYear ≤ year && year ≤ lastYear && 1 ≤ month && month ≤ 12 && 1 ≤ day &&
    day ≤ daysOf year month

end Calendar

/-- A point of time. The second is 60 while a leap second lasts. -/
structure Timestamp where
  year : Int
  month : Nat
  day : Nat
  hour : Nat
  minute : Nat
  second : Nat
  nanos : Nat
  isDate : Calendar.isDate year month day = true
  hour_lt : hour < 24
  minute_lt : minute < 60
  second_le : second ≤ 60
  nanos_lt : nanos < 1000000000
  deriving DecidableEq

namespace Timestamp

open Calendar

/-- The point of time with these parts, if there is one. -/
def make? (year : Int) (month day hour minute second nanos : Nat) : Option Timestamp :=
  if h : Calendar.isDate year month day = true ∧ hour < 24 ∧ minute < 60 ∧ second ≤ 60 ∧
      nanos < 1000000000 then
    some ⟨year, month, day, hour, minute, second, nanos, h.1, h.2.1, h.2.2.1, h.2.2.2.1, h.2.2.2.2⟩
  else none

/-- The beginning of the year 1970. -/
def epoch : Timestamp :=
  ⟨1970, 1, 1, 0, 0, 0, 0, by decide, by decide, by decide, by decide, by decide⟩

instance : Inhabited Timestamp := ⟨epoch⟩

/-- The parts in the order of their weight. -/
def parts (t : Timestamp) : List Int := [t.year, t.month, t.day, t.hour, t.minute, t.second, t.nanos]

/-- Whether a point of time is before another one. -/
def before (a b : Timestamp) : Bool := decide (a.parts < b.parts)

/-! ## Writing -/

/-- The last digits of a number, as many as told. -/
def digits : Nat → Nat → List Char
  | 0, _ => []
  | count + 1, n => digits count (n / 10) ++ [Text.Digits.char (n % 10)]

/-- A year: four digits, or a sign and at least four digits outside of four digits. -/
def yearChars (year : Int) : List Char :=
  if 0 ≤ year ∧ year ≤ 9999 then digits 4 year.natAbs
  else
    let written := Text.Digits.write year.natAbs
    (if year < 0 then '-' else '+') :: (List.replicate (4 - written.length) '0' ++ written)

/-- The part of a second: as many groups of three digits as it needs. -/
def fractionChars (nanos : Nat) : List Char :=
  if nanos = 0 then []
  else if nanos % 1000000 = 0 then '.' :: digits 3 (nanos / 1000000)
  else if nanos % 1000 = 0 then '.' :: digits 6 (nanos / 1000)
  else '.' :: digits 9 nanos

/-- The text as a list of characters. -/
def chars (t : Timestamp) : List Char :=
  yearChars t.year ++ '-' :: (digits 2 t.month ++ '-' :: (digits 2 t.day ++
    'T' :: (digits 2 t.hour ++ ':' :: (digits 2 t.minute ++ ':' :: (digits 2 t.second ++
      (fractionChars t.nanos ++ ['Z']))))))

/-- The text of a point of time. -/
def text (t : Timestamp) : String := String.ofList t.chars

/-! ## Reading -/

/-- A text without blank space in front. -/
def skipBlank (cs : List Char) : List Char := cs.dropWhile Text.isBlank

/-- A number of at least one and at most `most` digits, and what follows it. -/
def number? (most : Nat) (cs : List Char) : Option (Nat × List Char) :=
  let taken := (cs.take most).takeWhile Text.Digits.isDigit
  if taken = [] then none else some (Text.Digits.read taken, cs.drop taken.length)

/-- A year, which has at most four digits unless it has a sign. -/
def year? (cs : List Char) : Option (Int × List Char) :=
  match skipBlank cs with
  | '-' :: rest => (number? rest.length rest).map fun r => (-(r.1 : Int), r.2)
  | '+' :: rest => (number? rest.length rest).map fun r => ((r.1 : Int), r.2)
  | rest => (number? 4 rest).map fun r => ((r.1 : Int), r.2)

/-- A number of one or two digits. -/
def pair? (cs : List Char) : Option (Nat × List Char) := number? 2 (skipBlank cs)

/-- What follows a mark. -/
def mark? (mark : Char) (cs : List Char) : Option (List Char) :=
  match skipBlank cs with
  | c :: rest => if c = mark then some rest else none
  | [] => none

/-- A part of a second, in billionths; further digits are dropped. -/
def fraction? (cs : List Char) : Option (Nat × List Char) :=
  match cs with
  | '.' :: rest =>
    let taken := rest.takeWhile Text.Digits.isDigit
    if taken = [] then none
    else
      let kept := taken.take 9
      some (Text.Digits.read kept * Nat.pow 10 (9 - kept.length), rest.drop taken.length)
  | rest => some (0, rest)

/-- Two digits and what follows them. -/
def twoDigits? (cs : List Char) : Option (Nat × List Char) :=
  match cs with
  | a :: b :: rest =>
    if Text.Digits.isDigit a ∧ Text.Digits.isDigit b then
      some (10 * Text.Digits.value a + Text.Digits.value b, rest)
    else none
  | _ => none

/-- An offset from Greenwich in minutes after its sign. -/
def offsetMinutes? (cs : List Char) : Option (Nat × List Char) := do
  let (hours, rest) ← twoDigits? cs
  let (minutes, rest) ← twoDigits? (rest.dropWhile fun c => c = ':' || Text.isBlank c)
  if hours < 24 ∧ minutes < 60 then some (60 * hours + minutes, rest) else none

/-- An offset from Greenwich in minutes. -/
def offset? (cs : List Char) : Option (Int × List Char) :=
  if (cs.take 3).map Char.toUpper = ['U', 'T', 'C'] then some (0, cs.drop 3)
  else
    match cs with
    | c :: rest =>
      if c = 'Z' ∨ c = 'z' then some (0, rest)
      else if c = '+' then (offsetMinutes? rest).map fun r => ((r.1 : Int), r.2)
      else if c = '-' ∨ c.toNat = 0x2212 then
        (offsetMinutes? rest).map fun r => (-(r.1 : Int), r.2)
      else none
    | [] => none

/-- The day before a date. -/
def dayBefore (year : Int) (month day : Nat) : Int × Nat × Nat :=
  if 1 < day then (year, month, day - 1)
  else if 1 < month then (year, month - 1, daysOf year (month - 1))
  else (year - 1, 12, 31)

/-- The day after a date. -/
def dayAfter (year : Int) (month day : Nat) : Int × Nat × Nat :=
  if day < daysOf year month then (year, month, day + 1)
  else if month < 12 then (year, month + 1, 1)
  else (year + 1, 1, 1)

/-- The point of time that a clock shows which is ahead of Greenwich by an offset in minutes. -/
def atOffset? (t : Timestamp) (offset : Int) : Option Timestamp :=
  let minutes : Int := 60 * t.hour + t.minute - offset
  let (year, month, day) :=
    if minutes < 0 then dayBefore t.year t.month t.day
    else if 1440 ≤ minutes then dayAfter t.year t.month t.day
    else (t.year, t.month, t.day)
  let ofDay := (minutes % 1440).toNat
  make? year month day (ofDay / 60) (ofDay % 60) t.second t.nanos

/-- The point of time that the characters of a text stand for. -/
def readChars? (cs : List Char) : Option Timestamp := do
  let (year, cs) ← year? cs
  let (month, cs) ← pair? (← mark? '-' cs)
  let (day, cs) ← pair? (← mark? '-' cs)
  let cs ← match cs with
    | c :: rest => if c = 'T' ∨ c = 't' ∨ c = ' ' then some rest else none
    | [] => none
  let (hour, cs) ← pair? cs
  let (minute, cs) ← pair? (← mark? ':' cs)
  let (second, cs) ← pair? (← mark? ':' cs)
  let (nanos, cs) ← fraction? cs
  let (offset, cs) ← offset? (skipBlank cs)
  let shown ← make? year month day hour minute second nanos
  if skipBlank cs = [] then shown.atOffset? offset else none

/-- The point of time that a text stands for. -/
def read? (text : String) : Option Timestamp := readChars? text.toList

end Timestamp

end Provenance
