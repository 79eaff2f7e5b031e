import AttackMap.Frame.Basic
import AttackMap.Proofs.Binary64.Value
import Mathlib.Algebra.Order.Floor.Semiring
import Mathlib.Data.Rat.Floor

/-!
# Drawing with exact numbers

The geometry is stated over any scalars. Over the rationals nothing is
rounded but bytes, so what the formulas say of one another can be told apart
from what rounding does to it: literals are the fractions they are written
as, moving into `[0, 1]` is `max 0 (min 1 x)`, and the nearest byte never
falls when the number grows.

A sine is not rational. It is left open here (`Scalar.Sine`): it bends paths
and decides nothing else.
-/

namespace AttackMap

/-- What is taken for the sine of half turns, on exact numbers. -/
class Scalar.Sine where
  sinPi : ℚ → ℚ

/-- No sine at all. -/
@[reducible] def Scalar.Sine.flat : Scalar.Sine := ⟨fun _ => 0⟩

/-- Exact numbers. Doubles that are no numbers count as 0; they are drawn nowhere. -/
instance Scalar.exact [Sine] : Scalar ℚ where
  ofFloat x := (Binary64.number x.toModel.unpack).getD 0
  ofInt i := i
  fused a b c := a * b + c
  sinPi := Sine.sinPi
  less a b := decide (a < b)
  atMost a b := decide (a ≤ b)
  isNaN _ := false
  isFinite _ := true
  toByte x := UInt8.ofNat (min 255 ⌊x + 1 / 2⌋₊)

namespace Scalar

variable [Sine] {x y : ℚ}

/-! ## Operations -/

theorem less_iff : less x y = true ↔ x < y := decide_eq_true_iff

theorem atMost_iff : atMost x y = true ↔ x ≤ y := decide_eq_true_iff

theorem ofNat_exact (n : Nat) : (ofNat n : ℚ) = n := Int.cast_natCast n

theorem fused_exact (a b c : ℚ) : fused a b c = a * b + c := rfl

/-- A literal of the geometry is the fraction it is written as. -/
theorem literal (m : Nat) (negative : Bool) (e : Nat) :
    (exact.toOfScientific.ofScientific m negative e : ℚ) = OfScientific.ofScientific m negative e :=
  rfl

theorem literal_zero : (exact.toOfScientific.ofScientific 0 true 1 : ℚ) = 0 := by
  norm_num [literal]

theorem clamp_exact (x : ℚ) : clamp x = max 0 (min 1 x) := by
  have one : (exact.toOfScientific.ofScientific 10 true 1 : ℚ) = 1 := by norm_num [literal]
  rw [clamp, literal_zero, one]
  simp only [less_iff]
  split
  · next negative =>
    rw [min_eq_right (negative.le.trans zero_le_one), max_eq_left negative.le]
  · next least =>
    rw [not_lt] at least
    split
    · next above => rw [min_eq_left above.le, max_eq_right zero_le_one]
    · next most => rw [min_eq_right (not_lt.mp most), max_eq_right least]

theorem clamp01_exact (x : ℚ) : clamp01 x = max 0 (min 1 x) := clamp_exact x

theorem clamp_mono (h : x ≤ y) : clamp x ≤ clamp y := by
  rw [clamp_exact, clamp_exact]
  exact max_le_max_left 0 (min_le_min_left 1 h)

/-! ## Bytes -/

theorem toNat_toByte (x : ℚ) : (toByte x).toNat = min 255 ⌊x + 1 / 2⌋₊ := by
  refine UInt8.toNat_ofNat_of_lt' ?_
  exact lt_of_le_of_lt (min_le_left ..) (by decide)

/-- The nearest byte does not fall when a number grows. -/
theorem toByte_mono (h : x ≤ y) : toByte x ≤ toByte y := by
  rw [UInt8.le_iff_toNat_le, toNat_toByte, toNat_toByte]
  exact min_le_min_left 255 (Nat.floor_mono (add_le_add_left h _))

end Scalar

namespace Rgba

variable [Scalar.Sine]

theorem alpha_ofSeverity (severity : UInt8) (opacity : ℚ) :
    (ofSeverity severity opacity).alpha = Scalar.toByte (255 * max 0 (min 1 opacity)) := by
  have full : (Scalar.exact.toOfScientific.ofScientific 2550 true 1 : ℚ) = 255 := by
    norm_num [Scalar.literal]
  rw [← Scalar.clamp01_exact, ← full]
  rfl

/-- Less opacity makes no colour more opaque, whatever the severities. -/
theorem alpha_ofSeverity_mono (severity severity' : UInt8) {x y : ℚ} (h : x ≤ y) :
    (ofSeverity severity x).alpha ≤ (ofSeverity severity' y).alpha := by
  rw [alpha_ofSeverity, alpha_ofSeverity]
  refine Scalar.toByte_mono (mul_le_mul_of_nonneg_left ?_ (by norm_num))
  exact max_le_max_left 0 (min_le_min_left 1 h)

end Rgba

end AttackMap
