import AttackMap.Calendar
import AttackMap.Saturating
import AttackMap.Text.Blank
import AttackMap.Text.Digits

/-!
# Timestamps

A moment in UTC, to the nanosecond. A leap second has the second before it
and a nanosecond count of a thousand million or more.

The range is that of the calendar years -262143 to 262142; the bounds are
part of the type, so the milliseconds of a timestamp always fit a word
(`toInt_millis`).

The form that is read is a relaxed RFC 3339: blanks may stand before every
number and every separator, numbers may lack leading zeros, a year beyond
four digits needs a sign, and the offset may be `Z`, `UTC` or a sign with
hours and perhaps minutes. The form that is written is the strict one, in
UTC, with 0, 3, 6 or 9 digits of fraction.
-/

namespace AttackMap

open Calendar

namespace Timestamp

/-- The first second of the year -262143. -/
def firstSecond : Int := -8334601228800

/-- The last second of the year 262142. -/
def lastSecond : Int := 8210266876799

end Timestamp

/-- A moment: seconds since 1970-01-01T00:00:00Z and nanoseconds. -/
structure Timestamp where
  second : Int
  nano : Nat
  first_le : Timestamp.firstSecond ≤ second
  le_last : second ≤ Timestamp.lastSecond
  nano_lt : nano < 2000000000
  deriving DecidableEq

namespace Timestamp

/-- The moment, if it is in range. -/
def of? (second : Int) (nano : Nat) : Option Timestamp :=
  if h : firstSecond ≤ second ∧ second ≤ lastSecond ∧ nano < 2000000000 then
    some ⟨second, nano, h.1, h.2.1, h.2.2⟩
  else none

/-- The moment so many milliseconds after 1970. -/
def ofMillis? (ms : Millis) : Option Timestamp :=
  of? (ms.toInt.fdiv 1000) ((ms.toInt - 1000 * ms.toInt.fdiv 1000).toNat * 1000000)

/-- Whole milliseconds since 1970, rounded down. -/
def millis (t : Timestamp) : Millis := Int64.ofInt (t.second * 1000 + (t.nano / 1000000 : Nat))

/-- The milliseconds of a timestamp never leave the range of a word. -/
theorem toInt_millis (t : Timestamp) :
    t.millis.toInt = t.second * 1000 + (t.nano / 1000000 : Nat) := by
  have h1 := t.first_le
  have h2 := t.le_last
  have h3 := t.nano_lt
  simp only [firstSecond, lastSecond] at h1 h2
  rw [millis, Int64.toInt_ofInt_of_le] <;> omega

/-! ## Writing -/

/-- A year: four digits, with a sign if it is not in 0..9999. -/
def yearText (year : Int) : List Char :=
  if 0 ≤ year ∧ year ≤ 9999 then Text.padded 4 year.toNat
  else (if year < 0 then '-' else '+') :: Text.padded 4 year.natAbs

/-- The fraction of a second: the fewest of 0, 3, 6 or 9 digits that are exact. -/
def fractionText (nano : Nat) : List Char :=
  if nano = 0 then []
  else if nano % 1000000 = 0 then '.' :: Text.padded 3 (nano / 1000000)
  else if nano % 1000 = 0 then '.' :: Text.padded 6 (nano / 1000)
  else '.' :: Text.padded 9 nano

/-- The text of a moment in UTC. -/
def text (t : Timestamp) : String :=
  let day := t.second.fdiv 86400
  let inDay := (t.second - day * 86400).toNat
  let date := Date.ofDay day
  let leap := 1000000000 ≤ t.nano
  String.ofList <|
    yearText date.year ++ '-' :: Text.padded 2 date.month ++ '-' :: Text.padded 2 date.day
      ++ 'T' :: Text.padded 2 (inDay / 3600) ++ ':' :: Text.padded 2 (inDay / 60 % 60)
      ++ ':' :: Text.padded 2 (inDay % 60 + if leap then 1 else 0)
      ++ fractionText (if leap then t.nano - 1000000000 else t.nano) ++ ['Z']

/-! ## Reading -/

/-- Up to `most` digits at the front: how many, what they spell, what follows. -/
def digitsUpTo : Nat → List Char → Nat → Nat → Nat × Nat × List Char
  | 0, cs, count, value => (count, value, cs)
  | _ + 1, [], count, value => (count, value, [])
  | most + 1, c :: r, count, value =>
    match Text.decimalDigit? c with
    | some d => digitsUpTo most r (count + 1) (value * 10 + d)
    | none => (count, value, c :: r)

/-- A number of at most so many digits, with blanks before it. -/
def number? (most : Nat) (cs : List Char) : Option (Nat × List Char) :=
  match digitsUpTo most cs 0 0 with
  | (0, _, _) => none
  | (_, value, rest) => some (value, rest)

/-- A number of one or two digits within bounds. -/
def part? (low high : Nat) (cs : List Char) : Option (Nat × List Char) := do
  let (n, rest) ← number? 2 (Text.trimLeft cs)
  if low ≤ n ∧ n ≤ high then some (n, rest) else none

/-- A separator, with blanks before it. -/
def separator? (mark : Char) (cs : List Char) : Option (List Char) :=
  match Text.trimLeft cs with
  | c :: r => if c = mark then some r else none
  | [] => none

/-- A year: up to four digits, or any number after a sign. -/
def year? (cs : List Char) : Option (Int × List Char) :=
  match Text.trimLeft cs with
  | '-' :: r => (number? r.length r).map fun (n, rest) => (-(n : Int), rest)
  | '+' :: r => (number? r.length r).map fun (n, rest) => ((n : Int), rest)
  | cs => (number? 4 cs).map fun (n, rest) => ((n : Int), rest)

/-- A fraction of a second in nanoseconds; digits beyond the ninth are skipped. -/
def fraction? (cs : List Char) : Option (Nat × List Char) :=
  match cs with
  | '.' :: r =>
    match digitsUpTo 9 r 0 0 with
    | (0, _, _) => none
    | (count, value, rest) =>
      some (value * Nat.pow 10 (9 - count), rest.dropWhile fun c => (Text.decimalDigit? c).isSome)
  | _ => some (0, cs)

/-- Two digits, the first at most `high`. -/
def twoDigits? (high : Nat) (cs : List Char) : Option (Nat × List Char) :=
  match cs with
  | a :: b :: r => do
    let x ← Text.decimalDigit? a
    let y ← Text.decimalDigit? b
    if x ≤ high then some (10 * x + y, r) else none
  | _ => none

/-- The offset from UTC in seconds. -/
def offset? (cs : List Char) : Option (Int × List Char) :=
  let signed (negative : Bool) (r : List Char) : Option (Int × List Char) := do
    let (hours, r) ← twoDigits? 9 r
    let r := r.dropWhile fun c => c == ':' || Text.isBlank c
    let (minutes, r) ← if r.isEmpty then some (0, r) else twoDigits? 5 r
    let seconds : Int := hours * 3600 + minutes * 60
    return (if negative then -seconds else seconds, r)
  match cs with
  | 'Z' :: r => some (0, r)
  | 'z' :: r => some (0, r)
  | '+' :: r => signed false r
  | '-' :: r => signed true r
  | '\u2212' :: r => signed true r
  | _ => none

/-- The offset, or the letters `UTC` in any case. -/
def zone? (cs : List Char) : Option (Int × List Char) :=
  if (cs.take 3).map Char.toUpper = ['U', 'T', 'C'] then some (0, cs.drop 3) else offset? cs

/-- Read a moment. -/
def ofText? (s : String) : Option Timestamp := do
  let (year, r) ← year? s.toList
  let r ← separator? '-' r
  let (month, r) ← part? 1 12 r
  let r ← separator? '-' r
  let (day, r) ← part? 1 31 r
  let r ← match r with
    | 'T' :: r => some r
    | 't' :: r => some r
    | ' ' :: r => some r
    | _ => none
  let (hour, r) ← part? 0 23 r
  let r ← separator? ':' r
  let (minute, r) ← part? 0 59 r
  let r ← separator? ':' r
  let (second, r) ← part? 0 60 r
  let (nano, r) ← fraction? r
  let (offset, r) ← zone? (Text.trimLeft r)
  let date : Date := ⟨year, month, day⟩
  if !(Text.trimLeft r).isEmpty ∨ !date.exists ∨ year < -262143 ∨ 262142 < year
      ∨ offset ≤ -86400 ∨ 86400 ≤ offset then none
  else
    let leap := second = 60
    let inDay : Int := hour * 3600 + minute * 60 + (if leap then 59 else second)
    of? (date.toDay * 86400 + inDay - offset) (nano + if leap then 1000000000 else 0)

end Timestamp

end AttackMap
