import AttackMap.Proofs.Binary64.Size

/-!
# When a fused result is finite

A quotient is closed into a finite double exactly if it is below the ceiling
(`magnitudeBits_lt_iff`), and so is a product with a sum rounded once
(`isFinite_fused_iff`). That is all that the size of a fused result depends
on: the exact product may be beyond every double.
-/

namespace AttackMap.Binary64

open Float.Model (Format UnpackedFloat)
open Float.Model.UnpackedFloat

/-! ## Quotients -/

/-- An odd number is not exceeded by rounding as long as the half above it is not
reached. -/
theorem roundEven_le_iff {n d k : Nat} (pos : 0 < d) (odd : k % 2 = 1) :
    roundEven n d ≤ k ↔ 2 * n < (2 * k + 1) * d := by
  have split := Nat.div_add_mod n d
  have rest := Nat.mod_lt n pos
  unfold roundEven
  simp only
  generalize n / d = q at *
  generalize n % d = r at *
  subst split
  have expand : (2 * k + 1) * d = 2 * (d * k) + d := by ring
  rw [expand]
  rcases Nat.lt_trichotomy q k with less | same | more
  · have step : d * (q + 1) ≤ d * k := Nat.mul_le_mul_left d less
    rw [Nat.mul_add, Nat.mul_one] at step
    refine iff_of_true ?_ (by omega)
    split
    · exact less.le
    · split
      · exact less
      · split
        · exact less.le
        · exact less
  · subst same
    split
    · next low => exact iff_of_true (Nat.le_refl _) (by omega)
    · split
      · exact iff_of_false (by omega) (by omega)
      · rw [if_neg (by omega)]
        exact iff_of_false (by omega) (by omega)
  · have step : d * (k + 1) ≤ d * q := Nat.mul_le_mul_left d more
    rw [Nat.mul_add, Nat.mul_one] at step
    refine iff_of_false ?_ (by omega)
    split
    · omega
    · split
      · omega
      · split <;> omega

/-- A quotient in the highest binade. -/
theorem roundEven_top_iff {n d : Nat} (pos : 0 < d) :
    roundEven n d < 2 ^ 53 ↔ (n : ℚ) / d * 2 ^ (971 : Int) < ceiling := by
  have posQ : (0 : ℚ) < d := by exact_mod_cast pos
  have unit : (0 : ℚ) < 2 ^ (970 : Int) := by positivity
  have whole : roundEven n d < 2 ^ 53 ↔ 2 * n < (2 ^ 54 - 1) * d :=
    Nat.lt_succ_iff.trans (roundEven_le_iff (k := 2 ^ 53 - 1) pos (by norm_num))
  have cast : ((2 ^ 54 - 1 : Nat) : ℚ) = 2 ^ 54 - 1 := by norm_num
  rw [whole, ceiling, show (971 : Int) = 970 + 1 from rfl, zpow_add_one₀ two_ne_zero,
    mul_comm ((2 : ℚ) ^ (970 : Int)), ← mul_assoc, mul_lt_mul_iff_left₀ unit, div_mul_eq_mul_div,
    div_lt_iff₀ posQ, ← cast, mul_comm (n : ℚ)]
  exact_mod_cast Iff.rfl

theorem two_zpow_le_ceiling : (2 : ℚ) ^ (1023 : Int) ≤ ceiling := by
  rw [ceiling, show (1023 : Int) = 970 + (53 : Nat) from rfl, two_zpow_add]
  exact mul_le_mul_of_nonneg_right (by norm_num) (by positivity)

variable {num den : Nat} {e t : Int}

/-- A quotient below so many units has fewer. -/
theorem inUnits_lt (dpos : den ≠ 0) {k : Nat} (high : (num : ℚ) / den < 2 ^ (e + k)) :
    (inUnits num den e).1 / (inUnits num den e).2 < 2 ^ k := by
  have dpos' := inUnits_den_pos (Nat.pos_of_ne_zero dpos) num e
  have posQ : (0 : ℚ) < (inUnits num den e).2 := by exact_mod_cast dpos'
  have unit : (0 : ℚ) < 2 ^ e := by positivity
  have few : ((inUnits num den e).1 : ℚ) / (inUnits num den e).2 < 2 ^ k := by
    rw [inUnits_ratio, div_lt_iff₀ unit, ← two_zpow_add]
    exact high
  rw [div_lt_iff₀ posQ] at few
  exact (Nat.div_lt_iff_lt_mul dpos').mpr (by exact_mod_cast few)

/-- A quotient of at least so many units has them. -/
theorem le_inUnits (dpos : den ≠ 0) {k : Nat} (low : 2 ^ (e + k) ≤ (num : ℚ) / den) :
    2 ^ k ≤ (inUnits num den e).1 / (inUnits num den e).2 := by
  have dpos' := inUnits_den_pos (Nat.pos_of_ne_zero dpos) num e
  have posQ : (0 : ℚ) < (inUnits num den e).2 := by exact_mod_cast dpos'
  have unit : (0 : ℚ) < 2 ^ e := by positivity
  have many : (2 : ℚ) ^ k ≤ (inUnits num den e).1 / (inUnits num den e).2 := by
    rw [inUnits_ratio, le_div_iff₀ unit, ← two_zpow_add]
    exact low
  rw [le_div_iff₀ posQ] at many
  exact (Nat.le_div_iff_mul_le dpos').mpr (by exact_mod_cast many)

/-- The bits of a quotient in its unit. -/
theorem magnitudeBits_eq_units (npos : num ≠ 0) (dpos : den ≠ 0)
    (low : (2 : ℚ) ^ (t + 52) ≤ num / den) (high : (num : ℚ) / den < 2 ^ (t + 53))
    (unit : max (-1074) t = e) :
    magnitudeBits num den =
      min (roundEven (inUnits num den e).1 (inUnits num den e).2 + (e + 1074).toNat * leading)
        (2047 * leading) := by
  rw [magnitudeBits, if_neg npos]
  simp only [unitExponent_eq npos dpos low high, unit]

/-- **The ceiling.** A quotient has the bits of a finite double exactly if it is below
the ceiling. -/
theorem magnitudeBits_lt_iff (dpos : den ≠ 0) :
    magnitudeBits num den < 2047 * leading ↔ (num : ℚ) / den < ceiling := by
  have lead : leading = 2 ^ 52 := rfl
  by_cases npos : num = 0
  · rw [npos, magnitudeBits, if_pos rfl, Nat.cast_zero, zero_div]
    exact iff_of_true (by decide) ceiling_pos
  · have vpos : (0 : ℚ) < num / den := by positivity
    obtain ⟨t', low, high⟩ := exists_mem_Ico_zpow vpos (one_lt_two (α := ℚ))
    obtain ⟨t, rfl⟩ : ∃ t, t' = t + 52 := ⟨t' - 52, by ring⟩
    rw [show t + 52 + 1 = t + 53 by ring] at high
    obtain ⟨e, unit⟩ : ∃ e, max (-1074) t = e := ⟨_, rfl⟩
    have few := inUnits_lt (k := 53) dpos
      (high.trans_le (zpow_le_zpow_right₀ one_le_two (by omega : t + 53 ≤ e + (53 : Nat))))
    have rounded := roundEven_bounds (inUnits num den e).1 (inUnits num den e).2
    rw [magnitudeBits_eq_units npos dpos low high unit, lead]
    -- below, in and above the binade of the ceiling
    rcases lt_trichotomy t 971 with less | rfl | more
    · have below : (num : ℚ) / den < 2 ^ (1023 : Int) :=
        high.trans_le (zpow_le_zpow_right₀ one_le_two (by omega))
      refine iff_of_true ?_ (below.trans_le two_zpow_le_ceiling)
      omega
    · obtain rfl : e = 971 := by omega
      have dpos' := inUnits_den_pos (Nat.pos_of_ne_zero dpos) num 971
      have value : ((inUnits num den 971).1 : ℚ) / (inUnits num den 971).2 * 2 ^ (971 : Int) =
          num / den := by
        rw [inUnits_ratio, div_mul_cancel₀ _ (zpow_ne_zero _ two_ne_zero)]
      rw [← value, ← roundEven_top_iff dpos']
      omega
    · obtain rfl : e = t := by omega
      have above : (2 : ℚ) ^ (1024 : Int) ≤ num / den :=
        (zpow_le_zpow_right₀ one_le_two (by omega)).trans low
      have many := le_inUnits (k := 52) dpos low
      refine iff_of_false ?_ (not_lt.mpr (ceiling_lt.le.trans above))
      omega

theorem isFinite_ofBits (w : UInt64) :
    (Float.ofBits w).isFinite = true ↔ (w.toNat >>> 52) % 2048 ≠ 2047 := by
  have exponent : @unpackExponent .binary64 w.toBitVec = -1#11 ↔
      (w.toNat >>> 52) % 2048 = 2047 := by
    rw [eq_ones_iff, toNat_unpackExponent]
    exact Iff.rfl
  show (Float.Model.pack (unpack .binary64 w.toBitVec)).unpack.isFinite = true ↔ _
  by_cases all : (w.toNat >>> 52) % 2048 = 2047
  · refine iff_of_false ?_ (not_not.mpr all)
    rw [unpack]
    simp only [exponent.mpr all, if_true]
    split
    · cases Sign.ofBitVec (@unpackSign .binary64 w.toBitVec) <;> decide
    · decide
  · refine iff_of_true ?_ all
    have number : @isNaNBits .binary64 w.toBitVec = false := by
      rw [isNaNBits, decide_eq_false_iff_not]
      exact fun ones => all (exponent.mp ones.1)
    show (unpack .binary64 (pack .binary64 (unpack .binary64 w.toBitVec))).isFinite = true
    rw [pack_unpack, number, if_neg Bool.false_ne_true, unpack]
    simp only [mt exponent.mp all, if_false]
    split
    · split <;> rfl
    · rfl

theorem isFinite_nearest_iff (negative : Bool) (dpos : den ≠ 0) :
    (nearest negative num den).isFinite = true ↔ (num : ℚ) / den < ceiling := by
  have lead : leading = 2 ^ 52 := rfl
  have most : magnitudeBits num den ≤ 2047 * leading := by
    unfold magnitudeBits
    split
    · exact Nat.zero_le _
    · exact min_le_right _ _
  have bit : (if negative then 1 <<< 63 else 0) = (if negative then 2 ^ 63 else 0) := rfl
  rw [← magnitudeBits_lt_iff dpos, nearest, isFinite_ofBits, UInt64.toNat_ofNat_of_lt',
    Nat.shiftRight_eq_div_pow, bit]
  · cases negative
    · simp only [Bool.false_eq_true, if_false]
      omega
    · simp only [if_true]
      omega
  · rw [bit, UInt64.size]
    cases negative
    · simp only [Bool.false_eq_true, if_false]
      omega
    · simp only [if_true]
      omega

/-! ## Products with a sum -/

section

variable {a b c : Float} {p q r : ℚ}

/-- A small summand does not make a finite double infinite. -/
theorem Stands.exists_add (ha : Stands a p) (hb : Stands b q)
    (small : |p| < 2 ^ (970 : Int) ∨ |q| < 2 ^ (970 : Int)) : ∃ v, Stands (a + b) v := by
  have below : |p + q| < ceiling := by
    have triangle := abs_add_le p q
    rcases small with first | second
    · have := hb.abs_le
      linarith
    · have := ha.abs_le
      linarith
  obtain ⟨v, stands, -⟩ := ha.add hb below
  exact ⟨v, stands⟩

/-- A number of units in smaller units. -/
theorem shiftLeft_value (j : Nat) {i least : Int} (le : least ≤ i) :
    ((j <<< (i - least).toNat : Nat) : ℚ) * 2 ^ least = j * 2 ^ i := by
  obtain ⟨d, rfl⟩ : ∃ d : Nat, i = least + d := ⟨(i - least).toNat, by omega⟩
  rw [add_sub_cancel_left, Int.toNat_natCast, Nat.shiftLeft_eq, two_zpow_add]
  push_cast
  ring

/-- The exact sum in the smaller of the two units. -/
theorem exact_sum (s t u : Bool) (m n k : Nat) (e f g : Int) :
    (((if s != t then -(((m * n) <<< (e + f - min (e + f) g).toNat : Nat) : Int)
          else ((m * n) <<< (e + f - min (e + f) g).toNat : Nat)) +
        (if u then -((k <<< (g - min (e + f) g).toNat : Nat) : Int)
          else (k <<< (g - min (e + f) g).toNat : Nat)) : Int) : ℚ) * 2 ^ min (e + f) g =
      (if s then -(m : ℚ) else m) * 2 ^ e * ((if t then -(n : ℚ) else n) * 2 ^ f) +
        (if u then -(k : ℚ) else k) * 2 ^ g := by
  have product := shiftLeft_value (m * n) (min_le_left (e + f) g)
  have summand := shiftLeft_value k (min_le_right (e + f) g)
  generalize (m * n) <<< (e + f - min (e + f) g).toNat = P at *
  generalize k <<< (g - min (e + f) g).toNat = Q at *
  have power : (2 : ℚ) ^ (e + f) = 2 ^ e * 2 ^ f := zpow_add₀ two_ne_zero e f
  rw [power, Nat.cast_mul] at product
  rw [Int.cast_add, add_mul]
  congr 1
  · cases s <;> cases t <;> simp <;> linarith
  · cases u <;> simp <;> linarith

/-- **A fused result is finite exactly if the exact one is below the ceiling.** -/
theorem Stands.isFinite_fused_iff (ha : Stands a p) (hb : Stands b q) (hc : Stands c r) :
    (fused a b c).isFinite = true ↔ |p * q + r| < ceiling := by
  have below := hc.abs_lt
  obtain ⟨s, m, e, isA, -, rfl⟩ := ha.exists_parts
  obtain ⟨t, n, f, isB, -, rfl⟩ := hb.exists_parts
  obtain ⟨u, k, g, isC, -, rfl⟩ := hc.exists_parts
  unfold fused
  simp only [isA, isB, isC]
  split
  · next none =>
    -- nothing is multiplied, and what is added is a double
    have product : (if s then -(m : ℚ) else m) * 2 ^ e * ((if t then -(n : ℚ) else n) * 2 ^ f)
        = 0 := by
      rcases Nat.mul_eq_zero.mp none with zero | zero <;> simp [zero]
    obtain ⟨v, stands, size⟩ := ha.mul hb (by rw [product, abs_zero]; exact ceiling_pos)
    rw [product] at size ⊢
    have small := size (-1074) (le_refl _) (by rw [abs_zero]; positivity)
    have less : (2 : ℚ) ^ (-1074 : Int) < 2 ^ (970 : Int) :=
      zpow_lt_zpow_right₀ one_lt_two (by decide)
    obtain ⟨w, sum⟩ := stands.exists_add hc (.inl (small.trans_lt less))
    rw [zero_add]
    exact iff_of_true sum.isFinite below
  · next some =>
    have value := exact_sum s t u m n k e f g
    rw [← value]
    generalize (if (s != t) = true then _ else _ : Int) + _ = sum
    split
    · next zero =>
      rw [zero, Int.cast_zero, zero_mul, abs_zero]
      exact iff_of_true (by decide) ceiling_pos
    · rw [isFinite_nearest_iff _ (inUnits_den_pos Nat.one_pos _ _).ne', inUnits_ratio, abs_mul,
        abs_zpow, abs_two, zpow_neg, div_inv_eq_mul, Nat.cast_one, div_one, Nat.cast_natAbs,
        Int.cast_abs]

/-! ## What a finite result is computed from -/

/-- What is not finite is not made finite by closing it. -/
theorem isFinite_of_pack {u : UnpackedFloat} (h : (Float.Model.pack u).unpack.isFinite = true) :
    u.isFinite = true := by
  cases u with
  | zero | finite => rfl
  | notANumber => exact absurd h (by decide)
  | infinity s => cases s <;> exact absurd h (by decide)

theorem isFinite_of_add (sum : (a + b).isFinite = true) : a.isFinite = true := by
  have opened : (UnpackedFloat.add .binary64 a.toModel.unpack b.toModel.unpack).isFinite = true :=
    isFinite_of_pack sum
  show a.toModel.unpack.isFinite = true
  cases same : a.toModel.unpack with
  | zero | finite => rfl
  | notANumber =>
    rw [same] at opened
    cases opened
  | infinity s =>
    rw [same] at opened
    generalize b.toModel.unpack = y at opened
    cases y with
    | infinity t => cases s <;> cases t <;> exact absurd opened (by decide)
    | notANumber | zero | finite => cases opened

theorem isFinite_of_mul (product : (a * b).isFinite = true) : a.isFinite = true := by
  have opened : (UnpackedFloat.mul .binary64 a.toModel.unpack b.toModel.unpack).isFinite = true :=
    isFinite_of_pack product
  show a.toModel.unpack.isFinite = true
  cases same : a.toModel.unpack with
  | zero | finite => rfl
  | notANumber =>
    rw [same] at opened
    cases opened
  | infinity s =>
    rw [same] at opened
    generalize b.toModel.unpack = y at opened
    cases y with
    | notANumber | infinity | zero | finite => cases opened

/-- What is not finite is not made finite by a product with a sum. -/
theorem isFinite_of_fused (result : (fused a b c).isFinite = true) : a.isFinite = true := by
  cases is : parts a with
  | finite => exact (stands_of_parts is).isFinite
  | notANumber | infinite =>
    unfold fused at result
    rw [is] at result
    exact isFinite_of_mul (isFinite_of_add result)

end

end AttackMap.Binary64
