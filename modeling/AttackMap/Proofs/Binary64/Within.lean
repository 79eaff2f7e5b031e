import AttackMap.Proofs.Binary64.Fused

/-!
# Bounds for doubles

A bound is carried through a formula one operation at a time (`Within`).
The bounds of constants and of what is computed from small whole numbers
are read off their exponents (`within_of_exponent`), so a bound is a power
of two wherever it is not wanted any closer. Shares are the doubles from 0
to 1 (`IsShare`).

Bounds only go up. What keeps a large double finite is the half unit
between the largest of them and the ceiling, in which every small bound
fits (`Stands.exists_add`, `Within.isFinite_fused`).
-/

namespace AttackMap.Binary64

open Float.Model (UnpackedFloat)

/-- A finite double that is not beyond a bound. -/
def Within (x : Float) (bound : ℚ) : Prop := ∃ q, Stands x q ∧ |q| ≤ bound

/-- A double from 0 to 1. -/
def IsShare (x : Float) : Prop := ∃ q, Stands x q ∧ 0 ≤ q ∧ q ≤ 1

theorem stands_one : Stands 1.0 1 := by
  have value := @stands_of_parts 1.0 false (2 ^ 52) (-52) rfl
  norm_num at value
  exact value

/-! ## Bounds from exponents -/

/-- The exponent of a double bounds it. -/
theorem within_of_exponent {x : Float} (k : Nat) (most : k ≤ 1023)
    (few : (x.toBits.toNat >>> 52) % 2048 < 1023 + k) : Within x (2 ^ k) := by
  have lead : leading = 2 ^ 52 := rfl
  obtain ⟨negative, m, e, is, small, exponent⟩ : ∃ negative m e,
      parts x = .finite negative m e ∧ m < 2 ^ 53 ∧ e + 53 ≤ k := by
    unfold parts
    simp only [lead]
    rw [if_neg (by omega)]
    split
    · exact ⟨_, _, _, rfl, by omega, by omega⟩
    · exact ⟨_, _, _, rfl, by omega, by omega⟩
  refine ⟨_, stands_of_parts is, ?_⟩
  rw [abs_signed]
  have smallQ : (m : ℚ) ≤ 2 ^ 53 := by exact_mod_cast small.le
  calc
    (m : ℚ) * 2 ^ e ≤ 2 ^ 53 * 2 ^ e := mul_le_mul_of_nonneg_right smallQ (by positivity)
    _ = 2 ^ (e + (53 : Nat)) := (two_zpow_add e 53).symm
    _ ≤ 2 ^ (k : Int) := zpow_le_zpow_right₀ one_le_two exponent
    _ = 2 ^ k := zpow_natCast 2 k

/-! ## Shares -/

/-- A number that is neither below 0 nor above 1 is a share. -/
theorem isShare_of_not_lt {x : Float} (number : x.isNaN = false) (low : ¬ x < 0.0)
    (high : ¬ (1.0 : Float) < x) : IsShare x := by
  have finite : x.isFinite = true := by
    have number : x.toModel.unpack.isNaN = false := number
    show x.toModel.unpack.isFinite = true
    rw [lt_iff, unpack_zero] at low
    rw [lt_iff, unpack_one] at high
    cases opened : x.toModel.unpack with
    | zero | finite => rfl
    | notANumber =>
      rw [opened] at number
      cases number
    | infinity s =>
      rw [opened] at low high
      cases s with
      | negative => exact absurd rfl low
      | positive => exact absurd rfl high
  obtain ⟨q, stands⟩ := (isFinite_iff x).mp finite
  rw [stands.lt_iff stands_zero, not_lt] at low
  rw [stands_one.lt_iff stands, not_lt] at high
  exact ⟨q, stands, low, high⟩

theorem isShare_of_le {x : Float} (low : (0.0 : Float) ≤ x) (high : x ≤ (1.0 : Float)) :
    IsShare x := by
  refine isShare_of_not_lt ?_ (not_lt_of_le low) (not_lt_of_le high)
  show x.toModel.unpack.isNaN = false
  rw [le_iff, unpack_zero] at low
  cases opened : x.toModel.unpack with
  | zero | finite | infinity => rfl
  | notANumber =>
    rw [opened] at low
    cases low

/-- Moved into the range from 0 to 1, every double is a share. -/
theorem isShare_clamp01 (x : Float) : IsShare (Scalar.clamp01 x) := by
  have less (a b : Float) : Scalar.less a b = decide (a < b) := rfl
  have zero : IsShare 0.0 := ⟨0, stands_zero, le_refl _, zero_le_one⟩
  unfold Scalar.clamp01 Scalar.clamp
  simp only [less, decide_eq_true_eq]
  by_cases number : Scalar.isNaN x = true
  · rw [if_pos number]
    exact zero
  · rw [if_neg number]
    by_cases low : x < 0.0
    · rw [if_pos low]
      exact zero
    · rw [if_neg low]
      by_cases high : (1.0 : Float) < x
      · rw [if_pos high]
        exact ⟨1, stands_one, zero_le_one, le_refl _⟩
      · rw [if_neg high]
        exact isShare_of_not_lt (Bool.eq_false_of_not_eq_true number) low high

theorem IsShare.within {x : Float} (h : IsShare x) : Within x 1 := by
  obtain ⟨q, stands, low, high⟩ := h
  exact ⟨q, stands, abs_le.mpr ⟨by linarith, high⟩⟩

/-! ## Bounds through formulas -/

variable {x y z : Float} {a b : ℚ}

theorem Within.sub (hx : Within x a) (hy : Within y b) (k : Nat) (most : k ≤ 1023)
    (below : a + b < 2 ^ k) : Within (x - y) (2 ^ k) := by
  obtain ⟨p, px, hp⟩ := hx
  obtain ⟨q, qy, hq⟩ := hy
  have size : |p - q| < 2 ^ (k : Int) := by
    rw [zpow_natCast]
    exact ((abs_sub p q).trans (add_le_add hp hq)).trans_lt below
  have power : (2 : ℚ) ^ (k : Int) ≤ 2 ^ (1023 : Int) :=
    zpow_le_zpow_right₀ one_le_two (by omega)
  obtain ⟨v, stands, bounds⟩ := px.sub qy (size.trans_le (power.trans two_zpow_le_ceiling))
  refine ⟨v, stands, ?_⟩
  rw [← zpow_natCast]
  exact bounds k (by omega) size

/-- What is multiplied has a small bound: the sum with any finite double is finite. -/
theorem Within.isFinite_fused (hx : Within x a) (hy : Within y b)
    (small : a * b < 2 ^ (970 : Int)) (hz : z.isFinite = true) :
    (fused x y z).isFinite = true := by
  obtain ⟨p, px, hp⟩ := hx
  obtain ⟨q, qy, hq⟩ := hy
  obtain ⟨r, rz⟩ := (isFinite_iff z).mp hz
  rw [px.isFinite_fused_iff qy rz]
  have product : |p * q| ≤ a * b := by
    rw [abs_mul]
    exact mul_le_mul hp hq (abs_nonneg q) ((abs_nonneg p).trans hp)
  calc
    |p * q + r| ≤ |p * q| + |r| := abs_add_le _ _
    _ < 2 ^ (970 : Int) + (ceiling - 2 ^ (970 : Int)) :=
      add_lt_add_of_lt_of_le (product.trans_lt small) rz.abs_le
    _ = ceiling := add_sub_cancel _ _

end AttackMap.Binary64
