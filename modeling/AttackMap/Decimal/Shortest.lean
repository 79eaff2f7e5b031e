import AttackMap.Binary64

/-!
# The shortest decimal of a double

Every real in a small interval around a finite double rounds to it. Among
the decimal fractions in that interval the ones with the fewest digits are
taken, and of those the nearest to the double.

The search is on grids: for a count of digits, the points with so many
digits form a grid of step `10 ^ k`, and if any grid point lies in the
interval then so does one of the two neighbours of the double. Seventeen
digits always suffice.
-/

namespace AttackMap.Decimal

open Binary64

/-- A positive decimal fraction `digits · 10 ^ exponent`. -/
structure Scientific where
  digits : Nat
  exponent : Int
  deriving Repr, DecidableEq

/-- The interval of reals that round to `m · 2 ^ e`, in units of
`2 ^ (e - 2)`. Its ends belong to it exactly when `m` is even. -/
structure Basin where
  low : Nat
  value : Nat
  high : Nat
  closed : Bool
  exponent : Int

/-- The step below a double is half the step above it when the significand
is the least of its binade and the binade is not the lowest. -/
def Basin.of (m : Nat) (e : Int) : Basin :=
  let below := if m = leading ∧ -1074 < e then 1 else 2
  ⟨4 * m - below, 4 * m, 4 * m + 2, m % 2 = 0, e - 2⟩

/-- Whether `d · 10 ^ k` lies in the interval. -/
def Basin.holds (b : Basin) (d : Nat) (k : Int) : Bool :=
  -- both sides as naturals: d·10^k against x·2^q
  let left := (d * Nat.pow 10 k.toNat) <<< (-b.exponent).toNat
  let scale := Nat.pow 10 (-k).toNat <<< b.exponent.toNat
  if b.closed then b.low * scale ≤ left ∧ left ≤ b.high * scale
  else b.low * scale < left ∧ left < b.high * scale

/-- The greatest `t` with `10 ^ t ≤ num / den`, up to a guess that is off by
at most one. -/
def leadingPower (num den : Nat) : Int :=
  let guess : Int := (((num.log2 : Int) - den.log2) * 30103).fdiv 100000
  let reaches (t : Int) : Bool := den * Nat.pow 10 t.toNat ≤ num * Nat.pow 10 (-t).toNat
  if reaches (guess + 1) then guess + 1 else if reaches guess then guess else guess - 1

/-- The neighbours of `num / den` on the grid of step `10 ^ k`, the nearer
first; of two equally near the even one. -/
def neighbours (num den : Nat) (k : Int) : Nat × Nat :=
  let n := num * Nat.pow 10 (-k).toNat
  let d := den * Nat.pow 10 k.toNat
  let q := n / d
  let twice := 2 * (n % d)
  if twice < d ∨ (twice = d ∧ q % 2 = 0) then (q, q + 1) else (q + 1, q)

/-- The first grid, counting digits up from `count`, with a point in the
interval. -/
def search (b : Basin) (num den : Nat) (top : Int) : Nat → Nat → Scientific
  | 0, _ => ⟨0, 0⟩
  | fuel + 1, count =>
    let k := top - count + 1
    let (near, far) := neighbours num den k
    if b.holds near k then ⟨near, k⟩
    else if b.holds far k then ⟨far, k⟩
    else search b num den top fuel (count + 1)

/-- Zeros at the end of the digits moved into the exponent. -/
def Scientific.reduce : Nat → Scientific → Scientific
  | 0, s => s
  | fuel + 1, s =>
    if s.digits ≠ 0 ∧ s.digits % 10 = 0 then reduce fuel ⟨s.digits / 10, s.exponent + 1⟩ else s

/-- The shortest decimal of `m · 2 ^ e`. -/
def shortest (m : Nat) (e : Int) : Scientific :=
  if m = 0 then ⟨0, 0⟩
  else
    let num := m <<< e.toNat
    let den := 1 <<< (-e).toNat
    (search (Basin.of m e) num den (leadingPower num den) 17 1).reduce 17

end AttackMap.Decimal
