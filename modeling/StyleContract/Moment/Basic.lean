/-!
# Moment — Basic

Points in time in UTC: seconds from the start of 1970 and a fraction in nanoseconds. A fraction of
a whole second or more stands for a leap second. The two calendar functions count days from
1 January 1970 in the Gregorian calendar.
-/

namespace StyleContract

namespace Calendar

def isLeap (year : Int) : Bool := year % 4 == 0 && (year % 100 != 0 || year % 400 == 0)

/-- The number of days in a month. -/
def daysIn (year : Int) (month : Nat) : Nat :=
  if month = 2 then (if isLeap year then 29 else 28)
  else if month = 4 ∨ month = 6 ∨ month = 9 ∨ month = 11 then 30
  else 31

/-- The day's number, counted from 1 January 1970. -/
def dayNumber (year : Int) (month day : Nat) : Int :=
  let y := if month ≤ 2 then year - 1 else year
  let era := y / 400
  let yearOfEra := y % 400
  let fromMarch : Int := (month + 9) % 12
  let dayOfYear := (153 * fromMarch + 2) / 5 + day - 1
  era * 146097 + yearOfEra * 365 + yearOfEra / 4 - yearOfEra / 100 + dayOfYear - 719468

/-- Year, month and day of a day's number. -/
def ofDayNumber (n : Int) : Int × Nat × Nat :=
  let z := n + 719468
  let era := z / 146097
  let dayOfEra := z % 146097
  let yearOfEra :=
    (dayOfEra - dayOfEra / 1460 + dayOfEra / 36524 - dayOfEra / 146096) / 365
  let dayOfYear := dayOfEra - (365 * yearOfEra + yearOfEra / 4 - yearOfEra / 100)
  let fromMarch := (5 * dayOfYear + 2) / 153
  let day := dayOfYear - (153 * fromMarch + 2) / 5 + 1
  let month := if fromMarch < 10 then fromMarch + 3 else fromMarch - 9
  let year := yearOfEra + era * 400 + (if month ≤ 2 then 1 else 0)
  (year, month.toNat, day.toNat)

end Calendar

/-- A point in time, in seconds from the start of 1970 in UTC. -/
structure Moment where
  seconds : Int
  nanos : Nat
  deriving DecidableEq, Repr

namespace Moment

/-- Decimal digits of `n`, at least `width` of them. -/
def digits (width n : Nat) : String :=
  let ds := Nat.toDigits 10 n
  String.ofList (List.replicate (width - ds.length) '0' ++ ds)

/-- A year: four digits from 0 to 9999, otherwise with a sign. -/
def yearText (year : Int) : String :=
  if 0 ≤ year ∧ year ≤ 9999 then digits 4 year.toNat
  else (if year < 0 then "-" else "+") ++ digits 4 year.natAbs

/-- A fraction of a second by the shortest of three, six and nine digits, if it is not zero. -/
def fractionText (nanos : Nat) : String :=
  if nanos = 0 then ""
  else if nanos % 1000000 = 0 then "." ++ digits 3 (nanos / 1000000)
  else if nanos % 1000 = 0 then "." ++ digits 6 (nanos / 1000)
  else "." ++ digits 9 nanos

/-- Date and time with a given text for the offset from UTC. -/
def render (offset : String) (m : Moment) : String :=
  let (year, month, day) := Calendar.ofDayNumber (m.seconds / 86400)
  let second := (m.seconds % 86400).toNat
  let leap := m.nanos / 1000000000
  yearText year ++ "-" ++ digits 2 month ++ "-" ++ digits 2 day ++ "T" ++
    digits 2 (second / 3600) ++ ":" ++ digits 2 (second / 60 % 60) ++ ":" ++
    digits 2 (second % 60 + leap) ++ fractionText (m.nanos % 1000000000) ++ offset

/-- The text with `Z` for UTC. -/
def toText (m : Moment) : String := m.render "Z"

/-- The text with a numeric offset. -/
def toOffsetText (m : Moment) : String := m.render "+00:00"

end Moment

end StyleContract
