/-!
# Saturating words

Times are 64-bit signed milliseconds, counters are 64-bit unsigned words,
and the spans that timers wait for are counts of nanoseconds below `2 ^ 64`
seconds. Arithmetic on all three stops at the ends of the range instead of
wrapping: a clock far in the past still has an expiry, and a counter that
has reached its ceiling stays there.

Each operation is the exact one on `Int` or `Nat` followed by the nearest
word, so a proof leaves words at once: `toInt_nearest` and `toNat_nearest`
say what the nearest word is.
-/

namespace AttackMap

/-- A moment or a span, in milliseconds. -/
abbrev Millis := Int64

namespace Millis

/-- The least number of milliseconds. -/
def least : Int := -0x8000000000000000

/-- The greatest number of milliseconds. -/
def greatest : Int := 0x7fffffffffffffff

/-- The representable number of milliseconds nearest to `n`. -/
def nearest (n : Int) : Millis := Int64.ofInt (max least (min greatest n))

theorem toInt_nearest (n : Int) : (nearest n).toInt = max least (min greatest n) := by
  rw [nearest, Int64.toInt_ofInt_of_le] <;> simp only [least, greatest] <;> omega

/-- The sum, held at the ends of the range. -/
def plus (a b : Millis) : Millis := nearest (a.toInt + b.toInt)

/-- The difference, held at the ends of the range. -/
def minus (a b : Millis) : Millis := nearest (a.toInt - b.toInt)

theorem toInt_plus (a b : Millis) :
    (plus a b).toInt = max least (min greatest (a.toInt + b.toInt)) :=
  toInt_nearest _

theorem toInt_minus (a b : Millis) :
    (minus a b).toInt = max least (min greatest (a.toInt - b.toInt)) :=
  toInt_nearest _

end Millis

/-- A tally that never wraps. -/
abbrev Tally := UInt64

namespace Tally

/-- The greatest count. -/
def greatest : Nat := 0xffffffffffffffff

/-- The representable count nearest to `n`. -/
def nearest (n : Nat) : Tally := UInt64.ofNat (min n greatest)

theorem toNat_nearest (n : Nat) : (nearest n).toNat = min n greatest := by
  rw [nearest, UInt64.toNat_ofNat_of_lt']
  exact Nat.lt_of_le_of_lt (Nat.min_le_right _ _) (by decide)

/-- The sum, held at the ceiling. -/
def plus (a b : Tally) : Tally := nearest (a.toNat + b.toNat)

/-- The product, held at the ceiling. -/
def times (a b : Tally) : Tally := nearest (a.toNat * b.toNat)

/-- One more, held at the ceiling. -/
def next (a : Tally) : Tally := plus a 1

theorem toNat_plus (a b : Tally) :
    (plus a b).toNat = min (a.toNat + b.toNat) greatest :=
  toNat_nearest _

theorem toNat_times (a b : Tally) :
    (times a b).toNat = min (a.toNat * b.toNat) greatest :=
  toNat_nearest _

theorem toNat_next (a : Tally) : (next a).toNat = min (a.toNat + 1) greatest :=
  toNat_plus a 1

end Tally

/-- The longest span, in nanoseconds. -/
def Span.longest : Nat := (Tally.greatest + 1) * 1000000000 - 1

/-- A span of time. -/
structure Span where
  nanos : Nat
  le_longest : nanos ≤ Span.longest
  deriving DecidableEq

namespace Span

/-- The representable span nearest to `n` nanoseconds. -/
def nearest (n : Nat) : Span := ⟨min n longest, Nat.min_le_right _ _⟩

/-- A span of whole milliseconds. -/
def ofMillis (ms : Nat) : Span := nearest (ms * 1000000)

/-- The whole milliseconds of a span. -/
def millis (s : Span) : Nat := s.nanos / 1000000

/-- The sum, held at the longest. -/
def plus (a b : Span) : Span := nearest (a.nanos + b.nanos)

/-- So many times the span, held at the longest. -/
def times (a : Span) (n : Nat) : Span := nearest (a.nanos * n)

/-- The shorter of two spans. -/
def atMost (a b : Span) : Span := if a.nanos ≤ b.nanos then a else b

theorem nanos_nearest {n : Nat} (h : n ≤ longest) : (nearest n).nanos = n := Nat.min_eq_left h

end Span

end AttackMap
