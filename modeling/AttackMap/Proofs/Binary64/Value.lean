import AttackMap.Proofs.Binary64.Order
import AttackMap.Proofs.Binary64.Rounding

/-!
# The numbers of doubles

A finite double is a number (`Stands`): what its parts say, and what the core
operations compute with once they have opened it (`unpack_eq`). No double
reaches `ceiling`, which lies half a unit above the largest of them.
-/

namespace AttackMap.Binary64

open Float.Model (Format UnpackedFloat totalExponent)
open Float.Model.UnpackedFloat

/-! ## Opened doubles and their parts -/

theorem toNat_unpackMantissa (b : BitVec 64) :
    (@unpackMantissa .binary64 b).toNat = b.toNat % 2 ^ 52 := by
  rw [unpackMantissa, BitVec.toNat_cast, BitVec.extractLsb_toNat]
  rfl

theorem ofBitVec_unpackSign (b : BitVec 64) :
    Sign.ofBitVec (@unpackSign .binary64 b) = signOf (b.toNat >>> 63 == 1) := by
  have word := b.isLt
  have sign : (@unpackSign .binary64 b).toNat = b.toNat / 2 ^ 63 := by
    rw [unpackSign, BitVec.toNat_cast, BitVec.extractLsb_toNat]
    change b.toNat >>> 63 % 2 ^ 1 = _
    rw [Nat.shiftRight_eq_div_pow]
    omega
  rw [Nat.shiftRight_eq_div_pow, Sign.ofBitVec]
  by_cases zero : b.toNat / 2 ^ 63 = 0
  · have none : @unpackSign .binary64 b = 0#1 := BitVec.eq_of_toNat_eq (sign.trans zero)
    rw [if_pos none, zero]
    rfl
  · have one : b.toNat / 2 ^ 63 = 1 := by omega
    have some : @unpackSign .binary64 b ≠ 0#1 := by
      intro none
      exact zero (sign.symm.trans (congrArg BitVec.toNat none))
    rw [if_neg some, one]
    rfl

theorem eq_ones_iff (b : BitVec 11) : b = -1#11 ↔ b.toNat = 2047 :=
  ⟨fun h => h ▸ rfl, fun h => BitVec.eq_of_toNat_eq h⟩

theorem eq_zero_iff {n : Nat} (b : BitVec n) : b = 0#n ↔ b.toNat = 0 :=
  ⟨fun h => h ▸ BitVec.toNat_zero,
    fun h => BitVec.eq_of_toNat_eq (h.trans BitVec.toNat_zero.symm)⟩

/-- Opened, a double is what its parts say. -/
theorem unpack_eq (x : Float) :
    x.toModel.unpack = match parts x with
      | .notANumber => .notANumber
      | .infinite negative => .infinity (signOf negative)
      | .finite negative m e =>
        if h : m = 0 then .zero (signOf negative)
        else .finite (signOf negative) m e (Nat.pos_of_ne_zero h) := by
  have exponent := toNat_unpackExponent x.toModel.toBits.toBitVec
  have mantissa := toNat_unpackMantissa x.toModel.toBits.toBitVec
  have sign := ofBitVec_unpackSign x.toModel.toBits.toBitVec
  have lead : leading = 2 ^ 52 := rfl
  have word : x.toModel.toBits.toBitVec.toNat = x.toBits.toNat := rfl
  rw [word] at exponent mantissa sign
  have ones : @unpackExponent .binary64 x.toModel.toBits.toBitVec = -1#11 ↔
      (x.toBits.toNat >>> 52) % 2048 = 2047 := by
    rw [← exponent]
    exact eq_ones_iff _
  have full : (1#1 ++ @unpackMantissa .binary64 x.toModel.toBits.toBitVec).toNat =
      x.toBits.toNat % 2 ^ 52 + 2 ^ 52 := by
    have leads := toNat_leading (@unpackMantissa .binary64 x.toModel.toBits.toBitVec)
    refine leads.trans ?_
    rw [Nat.add_comm]
    exact congrArg (· + 2 ^ 52) mantissa
  rw [Float.Model.unpack, unpack, parts]
  simp only [eq_zero_iff, exponent, mantissa, sign, lead, full]
  by_cases all : (x.toBits.toNat >>> 52) % 2048 = 2047
  · rw [if_pos (ones.mpr all), if_pos all]
    split <;> rfl
  · rw [if_neg (mt ones.mp all), if_neg all]
    by_cases none : (x.toBits.toNat >>> 52) % 2048 = 0
    · simp only [none, if_true]
      rfl
    · rw [if_neg none, if_neg none]
      dsimp only
      rw [dif_neg (by omega)]
      rfl

/-! ## Numbers -/

/-- The number of an opened double, if it is one. -/
def number : UnpackedFloat → Option ℚ
  | .zero _ => some 0
  | .finite s m e _ => some (s.apply m * 2 ^ e)
  | .infinity _ | .notANumber => none

/-- A double is finite, and this is its number. -/
def Stands (x : Float) (q : ℚ) : Prop := number x.toModel.unpack = some q

/-- The least number that is rounded to infinity: a number of half units above the
largest double, which has all bits of its significand. -/
def ceiling : ℚ := (2 ^ 54 - 1) * 2 ^ (970 : Int)

theorem isFinite_iff (x : Float) : x.isFinite = true ↔ ∃ q, Stands x q := by
  show x.toModel.unpack.isFinite = true ↔ ∃ q, number x.toModel.unpack = some q
  cases x.toModel.unpack with
  | zero s => exact iff_of_true rfl ⟨0, rfl⟩
  | finite s m e pos => exact iff_of_true rfl ⟨_, rfl⟩
  | infinity | notANumber => exact iff_of_false nofun nofun

theorem Stands.isFinite {x : Float} {q : ℚ} (h : Stands x q) : x.isFinite = true :=
  (isFinite_iff x).mpr ⟨q, h⟩

theorem Stands.unique {x : Float} {p q : ℚ} (h : Stands x p) (h' : Stands x q) : p = q :=
  Option.some.inj (h.symm.trans h')

/-- The number of a sign and a size. -/
theorem apply_signOf (negative : Bool) (m : Nat) :
    ((signOf negative).apply m : ℚ) = if negative then -(m : ℚ) else m := by
  cases negative <;> simp [signOf, Sign.apply]

theorem abs_apply (s : Sign) (m : Nat) : |(s.apply m : ℚ)| = m := by
  cases s <;> simp [Sign.apply]

theorem stands_of_parts {x : Float} {negative : Bool} {m : Nat} {e : Int}
    (is : parts x = .finite negative m e) :
    Stands x ((if negative then -(m : ℚ) else m) * 2 ^ e) := by
  have opened := unpack_eq x
  rw [is] at opened
  rw [Stands, opened]
  dsimp only
  split
  · next zero =>
    rw [number, zero]
    simp
  · rw [number, apply_signOf]

/-- The parts of a finite double, and its number from them. -/
theorem Stands.exists_parts {x : Float} {q : ℚ} (h : Stands x q) :
    ∃ negative m e, parts x = .finite negative m e ∧ IsParts m e ∧
      q = (if negative then -(m : ℚ) else m) * 2 ^ e := by
  obtain ⟨negative, m, e, is, isParts, -⟩ := Binary64.exists_parts h.isFinite
  exact ⟨negative, m, e, is, isParts, h.unique (stands_of_parts is)⟩

/-- No double reaches the ceiling, by half a unit of the largest. -/
theorem IsParts.le {m : Nat} {e : Int} (h : IsParts m e) :
    (m : ℚ) * 2 ^ e ≤ ceiling - 2 ^ (970 : Int) := by
  have most : (m : ℚ) ≤ 2 ^ 53 - 1 := by
    have : m + 1 ≤ 2 ^ 53 := h.small
    have : (m : ℚ) + 1 ≤ 2 ^ 53 := by exact_mod_cast this
    linarith
  calc
    (m : ℚ) * 2 ^ e ≤ (2 ^ 53 - 1) * 2 ^ (971 : Int) := by
      refine mul_le_mul most (zpow_le_zpow_right₀ one_le_two h.high) (by positivity) ?_
      norm_num
    _ = ceiling - 2 ^ (970 : Int) := by
      rw [ceiling, show (971 : Int) = 970 + 1 from rfl, zpow_add_one₀ two_ne_zero]
      ring

theorem abs_signed (negative : Bool) (m : Nat) (e : Int) :
    |(if negative then -(m : ℚ) else m) * 2 ^ e| = m * 2 ^ e := by
  have pos : (0 : ℚ) < 2 ^ e := by positivity
  rw [← apply_signOf, abs_mul, abs_apply, abs_of_pos pos]

theorem Stands.abs_le {x : Float} {q : ℚ} (h : Stands x q) :
    |q| ≤ ceiling - 2 ^ (970 : Int) := by
  obtain ⟨negative, m, e, -, isParts, rfl⟩ := h.exists_parts
  rw [abs_signed]
  exact isParts.le

theorem Stands.abs_lt {x : Float} {q : ℚ} (h : Stands x q) : |q| < ceiling :=
  h.abs_le.trans_lt (sub_lt_self _ (by positivity))

theorem stands_zero : Stands 0.0 0 := rfl

theorem ceiling_pos : 0 < ceiling := (abs_nonneg 0).trans_lt stands_zero.abs_lt

/-- An opened double that is finite, and its number. -/
inductive Opened : UnpackedFloat → ℚ → Prop
  | zero (s : Sign) : Opened (.zero s) 0
  | finite (s : Sign) (m : Nat) (e : Int) (pos : 0 < m) (isParts : IsParts m e) :
    Opened (.finite s m e pos) (s.apply m * 2 ^ e)

theorem Stands.opened {x : Float} {q : ℚ} (h : Stands x q) : Opened x.toModel.unpack q := by
  obtain ⟨negative, m, e, is, isParts, same⟩ := h.exists_parts
  have opened := unpack_eq x
  rw [is] at opened
  dsimp only at opened
  rw [← apply_signOf] at same
  by_cases zero : m = 0
  · rw [dif_pos zero] at opened
    have none : ((signOf negative).apply (0 : Nat) : ℚ) * 2 ^ e = 0 := by
      cases negative <;> simp [signOf, Sign.apply]
    rw [opened, same, zero, none]
    exact .zero _
  · rw [dif_neg zero] at opened
    rw [opened, same]
    exact .finite _ m e _ isParts

/-! ## Order -/

/-- Of two sizes with different exponents the one with the greater exponent is
greater: its leading bit is set. -/
theorem IsParts.lt {m n : Nat} {e f : Int} (h : IsParts m e) (h' : IsParts n f) (less : e < f) :
    (m : ℚ) * 2 ^ e < n * 2 ^ f := by
  have full : 2 ^ 52 ≤ n := by
    have := h.low
    have := h'.full
    omega
  have fullQ : (2 : ℚ) ^ 52 ≤ n := by exact_mod_cast full
  have smallQ : (m : ℚ) < 2 ^ 53 := by exact_mod_cast h.small
  calc
    (m : ℚ) * 2 ^ e < 2 ^ 53 * 2 ^ e := mul_lt_mul_of_pos_right smallQ (by positivity)
    _ = 2 ^ 52 * 2 ^ (e + 1) := by
      rw [zpow_add_one₀ two_ne_zero]
      ring
    _ ≤ n * 2 ^ f :=
      mul_le_mul fullQ (zpow_le_zpow_right₀ one_le_two (by omega)) (by positivity) (by positivity)

theorem compare_sizes {m n : Nat} {e f : Int} (h : IsParts m e) (h' : IsParts n f) :
    (compare e f).then (compare m n) = compare ((m : ℚ) * 2 ^ e) (n * 2 ^ f) := by
  rcases lt_trichotomy e f with less | rfl | more
  · rw [compare_lt_iff_lt.mpr less, compare_lt_iff_lt.mpr (h.lt h' less)]
    rfl
  · have unit : (0 : ℚ) < 2 ^ e := by positivity
    rw [compare_eq_iff_eq.mpr (rfl : e = e), Ordering.eq_then]
    rcases lt_trichotomy m n with less | rfl | more
    · have lessQ : (m : ℚ) < n := by exact_mod_cast less
      rw [compare_lt_iff_lt.mpr less,
        compare_lt_iff_lt.mpr (mul_lt_mul_of_pos_right lessQ unit)]
    · rw [compare_eq_iff_eq.mpr (rfl : m = m), compare_eq_iff_eq.mpr rfl]
    · have moreQ : (n : ℚ) < m := by exact_mod_cast more
      rw [compare_gt_iff_gt.mpr more,
        compare_gt_iff_gt.mpr (mul_lt_mul_of_pos_right moreQ unit)]
  · rw [compare_gt_iff_gt.mpr more, compare_gt_iff_gt.mpr (h'.lt h more)]
    rfl

theorem compare_neg (x y : ℚ) : compare (-x) (-y) = (compare x y).swap := by
  rcases lt_trichotomy x y with less | rfl | more
  · rw [compare_lt_iff_lt.mpr less, compare_gt_iff_gt.mpr (neg_lt_neg less)]
    rfl
  · rw [compare_eq_iff_eq.mpr rfl, compare_eq_iff_eq.mpr rfl]
    rfl
  · rw [compare_gt_iff_gt.mpr more, compare_lt_iff_lt.mpr (neg_lt_neg more)]
    rfl

/-- Doubles are in the order of their numbers. -/
theorem Opened.compare_eq {a b : UnpackedFloat} {p q : ℚ} (ha : Opened a p) (hb : Opened b q) :
    a.compare b = some (compare p q) := by
  have size {m : Nat} (pos : 0 < m) (e : Int) : (0 : ℚ) < m * 2 ^ e := by positivity
  have negative (m : Nat) (e : Int) :
      ((Sign.negative.apply m : Int) : ℚ) * 2 ^ e = -(m * 2 ^ e) := by
    rw [Sign.apply, Int.cast_neg, Int.cast_natCast, neg_mul]
  have positive (m : Nat) (e : Int) : ((Sign.positive.apply m : Int) : ℚ) * 2 ^ e = m * 2 ^ e := by
    rw [Sign.apply, Int.cast_natCast]
  cases ha with
  | zero s =>
    cases hb with
    | zero t =>
      rw [compare_eq_iff_eq.mpr rfl]
      rfl
    | finite t n f npos _ =>
      cases t with
      | negative =>
        rw [negative, compare_gt_iff_gt.mpr (neg_lt_zero.mpr (size npos f))]
        rfl
      | positive =>
        rw [positive, compare_lt_iff_lt.mpr (size npos f)]
        rfl
  | finite s m e pos isParts =>
    cases hb with
    | zero t =>
      cases s with
      | negative =>
        rw [negative, compare_lt_iff_lt.mpr (neg_lt_zero.mpr (size pos e))]
        rfl
      | positive =>
        rw [positive, compare_gt_iff_gt.mpr (size pos e)]
        rfl
    | finite t n f npos isParts' =>
      have sizes := compare_sizes isParts isParts'
      have below := (neg_lt_zero.mpr (size pos e)).trans (size npos f)
      have above := (neg_lt_zero.mpr (size npos f)).trans (size pos e)
      cases s <;> cases t
      · rw [negative, negative, compare_neg, ← sizes]
        rfl
      · rw [negative, positive, compare_lt_iff_lt.mpr below]
        rfl
      · rw [negative, positive, compare_gt_iff_gt.mpr above]
        rfl
      · rw [positive, positive, ← sizes]
        rfl

theorem Stands.compare_eq {x y : Float} {p q : ℚ} (hx : Stands x p) (hy : Stands y q) :
    x.toModel.unpack.compare y.toModel.unpack = some (compare p q) :=
  hx.opened.compare_eq hy.opened

theorem Stands.lt_iff {x y : Float} {p q : ℚ} (hx : Stands x p) (hy : Stands y q) :
    x < y ↔ p < q := by
  rw [Binary64.lt_iff, UnpackedFloat.lt, hx.compare_eq hy, beq_iff_eq, Option.some_inj]
  exact compare_lt_iff_lt

end AttackMap.Binary64
