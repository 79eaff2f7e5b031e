/-!
# The proleptic Gregorian calendar

Days are counted from 1970-01-01, which is day 0, in both directions.
Counting is done in years that begin on the first of March: the leap day is
then the last day of its year, and the months before a given one have a
length that one linear formula gives.
-/

namespace AttackMap.Calendar

/-- A date; months and days count from 1. -/
structure Date where
  year : Int
  month : Nat
  day : Nat
  deriving DecidableEq, Repr

/-- Whether a year has a leap day. -/
def isLeap (year : Int) : Bool := year % 4 = 0 && (year % 100 ≠ 0 || year % 400 = 0)

/-- The number of days of a month. -/
def daysIn (year : Int) (month : Nat) : Nat :=
  if month = 2 then (if isLeap year then 29 else 28)
  else if month = 4 ∨ month = 6 ∨ month = 9 ∨ month = 11 then 30
  else 31

/-- Whether there is such a date. -/
def Date.exists (d : Date) : Bool :=
  1 ≤ d.month && d.month ≤ 12 && 1 ≤ d.day && d.day ≤ daysIn d.year d.month

/-- The days from the first of March of a year to the first of the month
that comes `m` months later. -/
def daysBefore (m : Nat) : Nat := (153 * m + 2) / 5

/-- The number of a date's day. -/
def Date.toDay (d : Date) : Int :=
  let year := if d.month ≤ 2 then d.year - 1 else d.year
  let era := year.fdiv 400
  let inEra := year - era * 400
  let inYear : Int := daysBefore ((d.month + 9) % 12) + d.day - 1
  era * 146097 + inEra * 365 + inEra.fdiv 4 - inEra.fdiv 100 + inYear - 719468

/-- The date of a day. -/
def Date.ofDay (n : Int) : Date :=
  let z := n + 719468
  let era := z.fdiv 146097
  let inEra := (z - era * 146097).toNat
  let years := (inEra - inEra / 1460 + inEra / 36524 - inEra / 146096) / 365
  let inYear := inEra - (365 * years + years / 4 - years / 100)
  let march := (5 * inYear + 2) / 153
  let month := if march < 10 then march + 3 else march - 9
  let year : Int := years + era * 400
  ⟨if month ≤ 2 then year + 1 else year, month, inYear - daysBefore march + 1⟩

end AttackMap.Calendar
