import AttackMap.Binary64

/-!
# Scalars

The arithmetic that geometry is done in. The geometry is stated once, over
any type of scalars: the program runs it on doubles, and a statement about
what is drawn can be made over numbers that are easier to reason about.

`fused a b c` is `a * b + c` rounded once, where there is rounding.
`sinPi t` is the sine of `t` half turns, used for `t` from 0 to 1.
-/

namespace AttackMap

/-- A type of numbers to draw with. -/
class Scalar (α : Type) extends Add α, Sub α, Mul α, Div α, OfScientific α where
  /-- The scalar of a double. -/
  ofFloat : Float → α
  /-- The scalar of a whole number. -/
  ofInt : Int → α
  fused : α → α → α → α
  sinPi : α → α
  less : α → α → Bool
  atMost : α → α → Bool
  isNaN : α → Bool
  isFinite : α → Bool
  /-- The nearest of 0, …, 255, a half going up. -/
  toByte : α → UInt8

namespace Scalar

variable {α : Type} [Scalar α]

/-- The scalar of a natural number. -/
def ofNat (n : Nat) : α := ofInt n

/-- A value moved into `[0, 1]`. -/
def clamp (x : α) : α :=
  if less x 0.0 then 0.0 else if less 1.0 x then 1.0 else x

/-- A value moved into `[0, 1]`; no number counts as 0. -/
def clamp01 (x : α) : α := if isNaN x then 0.0 else clamp x

end Scalar

/-- The byte nearest to a double, a half going up; no number counts as 0. -/
def Binary64.toByte (x : Float) : UInt8 :=
  match parts x with
  | .notANumber => 0
  | .infinite negative => if negative then 0 else 255
  | .finite true _ _ => 0
  | .finite false m e =>
    UInt8.ofNat (min 255 (roundUp (m <<< e.toNat) (1 <<< (-e).toNat)))

/-- Doubles. The sine is the one of the platform. -/
instance : Scalar Float where
  ofFloat x := x
  ofInt i := Binary64.nearest (i < 0) i.natAbs 1
  fused := Binary64.fused
  sinPi t := (3.141592653589793 * t).sin
  less a b := a < b
  atMost a b := a ≤ b
  isNaN := Float.isNaN
  isFinite := Float.isFinite
  toByte := Binary64.toByte

end AttackMap
