/-!
# Doubles as exact numbers

A finite double is `± significand · 2 ^ exponent`. This module opens a
double into those parts and closes the exact value of a quotient of
naturals into the nearest double, ties going to the even significand.
Everything that must round once and only once is built from the two: the
product-and-sum `fused`, and the reading of a decimal fraction.

The core operations on `Float` are used where one operation is one
rounding. They are not used to fuse two.
-/

namespace AttackMap.Binary64

/-! ## Opening a double -/

/-- What a double stands for. The finite case is `± significand · 2 ^ exponent`. -/
inductive Parts where
  | notANumber
  | infinite (negative : Bool)
  | finite (negative : Bool) (significand : Nat) (exponent : Int)
  deriving Repr, DecidableEq

/-- The leading bit of a significand. -/
def leading : Nat := 1 <<< 52

/-- The parts of a double. The exponent of a finite one is at least `-1074`. -/
def parts (x : Float) : Parts :=
  let bits := x.toBits.toNat
  let negative := bits >>> 63 == 1
  let biased : Nat := (bits >>> 52) % 2048
  let low : Nat := bits % leading
  if biased = 2047 then
    if low = 0 then .infinite negative else .notANumber
  else if biased = 0 then .finite negative low (-1074)
  else .finite negative (low + leading) ((biased : Int) - 1075)

/-- A finite double as a fraction: a numerator with a sign, over a power of two. -/
def fraction (x : Float) : Option (Int × Nat) :=
  match parts x with
  | .finite negative m e =>
    let scaled : Nat := m <<< e.toNat
    some (if negative then -scaled else scaled, 1 <<< (-e).toNat)
  | _ => none

/-! ## Closing a quotient -/

/-- The integer nearest to `num / den`, a half going to the even neighbour. -/
def roundEven (num den : Nat) : Nat :=
  let q := num / den
  let twice := 2 * (num % den)
  if twice < den then q
  else if den < twice then q + 1
  else if q % 2 = 0 then q else q + 1

/-- The integer nearest to `num / den`, a half going up. -/
def roundUp (num den : Nat) : Nat := (2 * num + den) / (2 * den)

/-- `num / den` in units of `2 ^ e`, as a quotient of naturals. -/
def inUnits (num den : Nat) (e : Int) : Nat × Nat :=
  (num <<< (-e).toNat, den <<< e.toNat)

/-- The exponent of the unit in which `num / den` has its 53 leading bits;
never below the least unit of all, `2 ^ -1074`. -/
def unitExponent (num den : Nat) : Int :=
  let guess : Int := (num.log2 : Int) - den.log2 - 52
  let (n, d) := inUnits num den guess
  max (-1074) (if n < d * leading then guess - 1 else guess)

/-- The bits of the double nearest to `num / den`, without the sign. A value
that rounds beyond the largest double has the bits of infinity. Filling up
a significand carries into the exponent, and that is the right neighbour. -/
def magnitudeBits (num den : Nat) : Nat :=
  if num = 0 then 0
  else
    let e := unitExponent num den
    let (n, d) := inUnits num den e
    min (roundEven n d + (e + 1074).toNat * leading) (2047 * leading)

/-- The double nearest to `± num / den`. -/
def nearest (negative : Bool) (num den : Nat) : Float :=
  Float.ofBits (UInt64.ofNat (magnitudeBits num den + if negative then 1 <<< 63 else 0))

/-! ## One rounding for a product and a sum -/

/-- `a · b + c` rounded once.

Where the product is zero or one of the three is not finite, the two core
operations already round at most once in all and give the right sign of
zero. One case is left to set right: a finite product too large for a
double beside an infinite `c`, which decides alone. A sum that vanishes is
positive zero. -/
def fused (a b c : Float) : Float :=
  match parts a, parts b, parts c with
  | .finite sa ma ea, .finite sb mb eb, .finite sc mc ec =>
    if ma * mb = 0 then a * b + c
    else
      let e := min (ea + eb) ec
      let p : Int := ((ma * mb) <<< (ea + eb - e).toNat : Nat)
      let q : Int := (mc <<< (ec - e).toNat : Nat)
      let sum : Int := (if sa != sb then -p else p) + (if sc then -q else q)
      if sum = 0 then 0
      else
        let (num, den) := inUnits sum.natAbs 1 (-e)
        nearest (sum < 0) num den
  | .finite .., .finite .., _ => c
  | _, _, _ => a * b + c

/-! ## Decimal fractions -/

/-- The double nearest to `± m · 10 ^ e`, or none if that lies beyond the
largest double. The two guards keep the powers of ten small: a value with
its leading digit above `10 ^ 400` or below `10 ^ -400` needs none. -/
def ofDecimal? (negative : Bool) (m : Nat) (e : Int) : Option Float :=
  let size : Int := e + (Nat.toDigits 10 m).length
  if m = 0 then some (nearest negative 0 1)
  else if 400 < size then none
  else if size < -400 then some (nearest negative 0 1)
  else
    let x := nearest negative (m * Nat.pow 10 e.toNat) (Nat.pow 10 (-e).toNat)
    if x.isFinite then some x else none

end AttackMap.Binary64
