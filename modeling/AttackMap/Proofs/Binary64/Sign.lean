import AttackMap.Frame.Scalar
import AttackMap.Saturating
import Mathlib

/-!
# Signs of doubles

A double is positive exactly when the number that it was computed from is:
that is what is wanted of the two operations by which a share of a lifetime
is found, the conversion of a whole number and a division. It is true of
whole numbers that fit a word, and not of all numbers, since a quotient
that is small enough is rounded to zero. So the exponents have to be
followed through both operations (`IsNormal`).

`zero_lt_quotient_iff` is the law. Everything before it opens and closes
the words of normal doubles, which are those with a leading bit that is not
written.
-/

namespace AttackMap.Binary64

open Float.Model (Format UnpackedFloat totalExponent)
open Float.Model.UnpackedFloat

/-! ## Words of normal doubles -/

theorem toNat_leading (m : BitVec 52) : (1#1 ++ m).toNat = 2 ^ 52 + m.toNat := by
  rw [BitVec.toNat_append, ← Nat.shiftLeft_add_eq_or_of_lt m.isLt]
  rfl

/-- The exponent of a normal double is not the one that means infinity. -/
theorem exponent_ne_ones {e : Nat} (he : e < 2047) : BitVec.ofNat 11 e ≠ -1#11 := by
  intro ones
  have same : e % 2 ^ 11 = 2047 := congrArg BitVec.toNat ones
  omega

/-- The word of a normal double is opened into its parts. -/
theorem unpack_components (s : Sign) {e m : Nat} (he : 0 < e) (he' : e < 2047) (hm : m < 2 ^ 52) :
    unpack .binary64 (packComponents .binary64 s (BitVec.ofNat 11 e) (BitVec.ofNat 52 m)) =
      .finite s (2 ^ 52 + m) ((e : Int) - 1075) (by omega) := by
  have hE : (BitVec.ofNat 11 e).toNat = e := Nat.mod_eq_of_lt (by omega)
  have hM : (BitVec.ofNat 52 m).toNat = m := Nat.mod_eq_of_lt hm
  have low : BitVec.ofNat 11 e ≠ 0#11 := fun h => by
    have same : e = 0 := hE.symm.trans (congrArg BitVec.toNat h)
    omega
  unfold unpack
  simp only [unpackExponent_packComponents, unpackMantissa_packComponents,
    unpackSign_packComponents, Sign.ofBitVec_toBitVec]
  rw [if_neg (exponent_ne_ones he'), if_neg low]
  simp only [toNat_leading, hE, hM]
  rfl

/-- Closed and opened again, a normal double is what it was. -/
theorem unpack_pack_normal (s : Sign) {m : Nat} {e : Int} (pos : 0 < m) (hm : 2 ^ 52 ≤ m)
    (hm' : m < 2 ^ 53) (he : -1074 ≤ e) (he' : e ≤ 971) :
    (Float.Model.pack (.finite s m e pos)).unpack = .finite s m e pos := by
  obtain ⟨exponent, rfl⟩ : ∃ exponent : Nat, e = exponent - 1075 :=
    ⟨(e + 1075).toNat, by omega⟩
  obtain ⟨mantissa, rfl⟩ := Nat.exists_eq_add_of_le hm
  have word := unpack_components s (e := exponent) (m := mantissa) (by omega) (by omega) (by omega)
  have number : isNaNBits (packComponents .binary64 s (BitVec.ofNat 11 exponent)
      (BitVec.ofNat 52 mantissa)) = false := by
    rw [isNaNBits, unpackExponent_packComponents, decide_eq_false_iff_not]
    exact fun all => exponent_ne_ones (by omega) all.1
  rw [← word]
  change unpack .binary64 (pack .binary64 (unpack .binary64 _)) = _
  rw [pack_unpack, number, if_neg Bool.false_ne_true]

/-- The word of a normal double as a number. -/
theorem toBitVec_word (s : Sign) {e m : Nat} (he' : e < 2047) (hm : m < 2 ^ 52) :
    (UInt64.ofNat (m + e * 2 ^ 52 + if s == .negative then 1 <<< 63 else 0)).toBitVec =
      packComponents .binary64 s (BitVec.ofNat 11 e) (BitVec.ofNat 52 m) := by
  have hE : (BitVec.ofNat 11 e).toNat = e := Nat.mod_eq_of_lt (by omega)
  have hM : (BitVec.ofNat 52 m).toNat = m := Nat.mod_eq_of_lt hm
  apply BitVec.eq_of_toNat_eq
  change (UInt64.ofNat _).toNat = (s.toBitVec ++ BitVec.ofNat 11 e ++ BitVec.ofNat 52 m).toNat
  rw [BitVec.toNat_append, ← Nat.shiftLeft_add_eq_or_of_lt (by omega), BitVec.toNat_append,
    ← Nat.shiftLeft_add_eq_or_of_lt (by omega), hE, hM, UInt64.toNat_ofNat_of_lt', Nat.shiftLeft_eq,
    Nat.shiftLeft_eq]
  · cases s
    · change m + e * 2 ^ 52 + 2 ^ 63 = (1 * 2 ^ 11 + e) * 2 ^ 52 + m
      ring
    · change m + e * 2 ^ 52 + 0 = (0 * 2 ^ 11 + e) * 2 ^ 52 + m
      ring
  · simp only [UInt64.size]
    split <;> omega

/-! ## Normal doubles -/

/-- The sign of a double, from the bit that says that it is negative. -/
def signOf (negative : Bool) : Sign := if negative then .negative else .positive

/-- A normal double, with its sign and bounds for the exponent of its last bit. -/
def IsNormal (x : Float) (s : Sign) (low high : Int) : Prop :=
  ∃ m e pos, x.toModel.unpack = .finite s m e pos ∧ 2 ^ 52 ≤ m ∧ m < 2 ^ 53 ∧ low ≤ e ∧ e ≤ high

/-- A word is that of a normal double if its exponent is not one of the two
that mean something else. -/
theorem isNormal_ofBits (negative : Bool) {bits : Nat} {low high : Int} (hlow : -1074 ≤ low)
    (hhigh : high ≤ 971) (hl : (low + 1075).toNat * 2 ^ 52 ≤ bits)
    (hh : bits < (high + 1076).toNat * 2 ^ 52) :
    IsNormal (Float.ofBits (UInt64.ofNat (bits + if negative then 1 <<< 63 else 0)))
      (signOf negative) low high := by
  have split : bits % 2 ^ 52 + bits / 2 ^ 52 * 2 ^ 52 = bits := by omega
  have word := toBitVec_word (signOf negative) (e := bits / 2 ^ 52) (m := bits % 2 ^ 52)
    (by omega) (by omega)
  have bit : (signOf negative == .negative) = negative := by cases negative <;> rfl
  rw [split, bit] at word
  have opened := unpack_components (signOf negative) (e := bits / 2 ^ 52) (m := bits % 2 ^ 52)
    (by omega) (by omega) (by omega)
  rw [← word] at opened
  refine ⟨2 ^ 52 + bits % 2 ^ 52, (bits / 2 ^ 52 : Nat) - 1075, by omega, ?_, by omega, by omega,
    by omega, by omega⟩
  calc
    _ = (Float.Model.pack (unpack .binary64 (UInt64.ofNat
          (bits + if negative then 1 <<< 63 else 0)).toBitVec)).unpack := rfl
    _ = _ := by
      rw [opened]
      exact unpack_pack_normal _ _ (by omega) (by omega) (by omega) (by omega)

/-! ## Whole numbers -/

theorem roundEven_bounds (n d : Nat) : n / d ≤ roundEven n d ∧ roundEven n d ≤ n / d + 1 := by
  unfold roundEven
  dsimp only
  split
  · omega
  · split
    · omega
    · split <;> omega

/-- A whole number, moved so that its leading bit has the place of a
significand's, has as many units as a significand has. -/
theorem inUnits_leading {n : Nat} (pos : n ≠ 0) :
    2 ^ 52 ≤ (inUnits n 1 (n.log2 - 52)).1 / (inUnits n 1 (n.log2 - 52)).2 ∧
      (inUnits n 1 (n.log2 - 52)).1 / (inUnits n 1 (n.log2 - 52)).2 < 2 ^ 53 ∧
      (inUnits n 1 (n.log2 - 52)).2 * leading ≤ (inUnits n 1 (n.log2 - 52)).1 := by
  obtain ⟨low, high⟩ := (Nat.log2_eq_iff pos).mp rfl
  have lead : leading = 2 ^ 52 := rfl
  simp only [inUnits, Nat.shiftLeft_eq, Nat.one_mul, lead]
  rcases Nat.le_total n.log2 52 with small | large
  · have up : (-((n.log2 : Int) - 52)).toNat = 52 - n.log2 := by omega
    have down : ((n.log2 : Int) - 52).toNat = 0 := by omega
    have unit : 2 ^ n.log2 * 2 ^ (52 - n.log2) = 2 ^ 52 := by
      rw [← Nat.pow_add, Nat.add_sub_cancel' small]
    have above : 2 ^ (n.log2 + 1) * 2 ^ (52 - n.log2) = 2 ^ 53 := by
      rw [Nat.pow_succ, Nat.mul_right_comm, unit, ← Nat.pow_succ]
    have lower := Nat.mul_le_mul_right (2 ^ (52 - n.log2)) low
    have upper := Nat.mul_lt_mul_of_pos_right high (Nat.two_pow_pos (52 - n.log2))
    rw [up, down, Nat.pow_zero, Nat.div_one, Nat.one_mul]
    omega
  · have up : (-((n.log2 : Int) - 52)).toNat = 0 := by omega
    have down : ((n.log2 : Int) - 52).toNat = n.log2 - 52 := by omega
    have unit : 2 ^ (n.log2 - 52) * 2 ^ 52 = 2 ^ n.log2 := by
      rw [← Nat.pow_add, Nat.sub_add_cancel large]
    have above : 2 ^ 53 * 2 ^ (n.log2 - 52) = 2 ^ (n.log2 + 1) := by
      rw [← Nat.pow_add]
      congr 1
      omega
    rw [up, down, Nat.pow_zero, Nat.mul_one]
    refine ⟨(Nat.le_div_iff_mul_le (Nat.two_pow_pos _)).mpr ?_,
      (Nat.div_lt_iff_lt_mul (Nat.two_pow_pos _)).mpr ?_, ?_⟩
    · rw [Nat.mul_comm, unit]
      exact low
    · rw [above]
      exact high
    · rw [unit]
      exact low

/-- The last bit of a whole number that is not zero. -/
theorem unitExponent_whole {n : Nat} (pos : n ≠ 0) : unitExponent n 1 = n.log2 - 52 := by
  have one : (1 : Nat).log2 = 0 := by decide
  have fits := (inUnits_leading pos).2.2
  unfold unitExponent
  simp only [one, Nat.cast_zero, Int.sub_zero]
  rw [if_neg (by omega)]
  omega

/-- A whole number that is not zero and fits a word is a normal double. -/
theorem isNormal_nearest (negative : Bool) {n : Nat} (pos : n ≠ 0) (word : n < 2 ^ 64) :
    IsNormal (nearest negative n 1) (signOf negative) (-52) 12 := by
  have log : n.log2 < 64 := (Nat.log2_lt pos).mpr word
  have units := inUnits_leading pos
  have rounded := roundEven_bounds (inUnits n 1 (n.log2 - 52)).1 (inUnits n 1 (n.log2 - 52)).2
  have lead : leading = 2 ^ 52 := rfl
  rw [nearest, magnitudeBits, if_neg pos, unitExponent_whole pos]
  dsimp only
  refine isNormal_ofBits negative (by omega) (by omega) ?_ ?_
  · rw [lead]
    omega
  · rw [lead]
    omega

/-- A whole number that fits a word is read as a double too. -/
theorem isSome_ofDecimal?_word {n : Nat} (word : n < 2 ^ 64) :
    (ofDecimal? false n 0).isSome = true := by
  by_cases zero : n = 0
  · subst zero
    rfl
  · have few : (Nat.toDigits 10 n).length ≤ 20 :=
      (Nat.length_toDigits_le_iff (by decide) (by decide)).mpr (by omega)
    obtain ⟨m, e, pos, opened, -⟩ := isNormal_nearest false zero word
    have finite : (nearest false (n * Nat.pow 10 0) (Nat.pow 10 0)).isFinite = true := by
      change (nearest false (n * 1) 1).isFinite = true
      rw [Nat.mul_one, Float.isFinite, Float.Model.isFinite, opened]
      rfl
    unfold ofDecimal?
    simp only [Int.neg_zero, Int.toNat_zero]
    rw [if_neg zero, if_neg (by omega), if_neg (by omega), if_pos finite]
    rfl

/-! ## Quotients -/

theorem mantissa_shiftRight (em : ExtendedMantissa) (k : Nat) :
    (em >>> k).mantissa = em.mantissa / 2 ^ k := by
  induction k with
  | zero => exact (Nat.div_one _).symm
  | succ k ih =>
    change (em >>> k).mantissa / 2 = _
    rw [ih, Nat.div_div_eq_div_mul, Nat.pow_succ]

theorem mantissa_ofMantissaAndAccuracy (m : Nat) (a : Accuracy) :
    (ExtendedMantissa.ofMantissaAndAccuracy m a).mantissa = m := by
  unfold ExtendedMantissa.ofMantissaAndAccuracy
  split <;> rfl

theorem roundedMantissa_bounds (em : ExtendedMantissa) :
    em.mantissa ≤ em.roundedMantissa ∧ em.roundedMantissa ≤ em.mantissa + 1 := by
  unfold ExtendedMantissa.roundedMantissa Accuracy.roundToNearestEven
  split <;> omega

/-- A mantissa with bits to spare is cut down to the bits of a significand. -/
theorem shiftToTargetExponent_of_le {m : Nat} {e : Int} (a : Accuracy) (hm : 2 ^ 52 ≤ m)
    (he : -1074 ≤ e) :
    ∃ em k, shiftToTargetExponent .binary64 m e a = (em, e + (k : Nat)) ∧ m.log2 = 52 + k ∧
      2 ^ 52 ≤ em.mantissa ∧ em.mantissa < 2 ^ 53 := by
  have pos : m ≠ 0 := by omega
  obtain ⟨low, high⟩ := (Nat.log2_eq_iff pos).mp rfl
  have log : 52 ≤ m.log2 := (Nat.le_log2 pos).mpr hm
  obtain ⟨k, hk⟩ := Nat.exists_eq_add_of_le log
  have target : Format.targetExponent .binary64 (totalExponent m e) = e + k := by
    simp only [Format.targetExponent, totalExponent, Format.mantissaBits, Format.minExponent, hk]
    omega
  have shift : (e + (k : Int) - e).toNat = k := by omega
  refine ⟨ExtendedMantissa.ofMantissaAndAccuracy m a >>> k, k, ?_, hk, ?_⟩
  · simp only [shiftToTargetExponent, target, shiftToExponent, shift]
  · rw [mantissa_shiftRight, mantissa_ofMantissaAndAccuracy]
    rw [hk] at low high
    constructor
    · rw [Nat.le_div_iff_mul_le (Nat.two_pow_pos k), ← Nat.pow_add]
      exact low
    · rw [Nat.div_lt_iff_lt_mul (Nat.two_pow_pos k), ← Nat.pow_add]
      exact high.trans_eq (by congr 1; omega)

/-- Rounding a mantissa with bits to spare gives a normal double. -/
theorem roundWithAccuracy_normal (s : Sign) {m : Nat} {e : Int} (a : Accuracy) (hm : 2 ^ 52 ≤ m)
    (hm' : m < 2 ^ 54) (he : -1074 ≤ e) :
    ∃ m' e' pos, roundWithAccuracy .binary64 s m e a = .finite s m' e' pos ∧
      2 ^ 52 ≤ m' ∧ m' < 2 ^ 53 ∧ e ≤ e' ∧ e' ≤ e + 2 := by
  obtain ⟨em, k, cut, log, low, high⟩ := shiftToTargetExponent_of_le a hm he
  have rounded := roundedMantissa_bounds em
  obtain ⟨em', k', cut', log', low', high'⟩ :=
    shiftToTargetExponent_of_le (m := em.roundedMantissa) (e := e + (k : Nat)) .exact
      (by omega) (by omega)
  have few : k ≤ 1 := by
    have := (Nat.log2_lt (by omega)).mpr hm'
    omega
  have few' : k' ≤ 1 := by
    have : em.roundedMantissa.log2 < 54 := (Nat.log2_lt (by omega)).mpr (by omega)
    omega
  refine ⟨em'.mantissa, e + (k : Nat) + (k' : Nat), by omega, ?_, low', high', by omega, by omega⟩
  simp only [roundWithAccuracy, cut, cut']
  exact dif_neg (by omega)

theorem unpack_div (x y : Float) :
    (x / y).toModel.unpack =
      (Float.Model.pack (div .binary64 x.toModel.unpack y.toModel.unpack)).unpack :=
  rfl

/-- The quotient of normal doubles that are not too far apart is normal, and
its sign is that of the division. -/
theorem isNormal_div {x y : Float} {s t : Sign} (hx : IsNormal x s (-52) 12)
    (hy : IsNormal y t (-52) 12) : IsNormal (x / y) (s / t) (-117) 13 := by
  obtain ⟨m, e, pos, opened, low, high, below, above⟩ := hx
  obtain ⟨n, f, npos, nopened, nlow, nhigh, nbelow, nabove⟩ := hy
  have log : m.log2 = 52 := (Nat.log2_eq_iff (by omega)).mpr ⟨low, high⟩
  have nlog : n.log2 = 52 := (Nat.log2_eq_iff (by omega)).mpr ⟨nlow, nhigh⟩
  have target : Format.targetExponent .binary64 (totalExponent m e - totalExponent n f) =
      e - f - 53 := by
    simp only [Format.targetExponent, totalExponent, Format.mantissaBits, Format.minExponent, log,
      nlog]
    omega
  have shift : (e - f - (e - f - 53)).toNat = 53 := by omega
  have least : min (e - f) (e - f - 53) = e - f - 53 := by omega
  obtain ⟨q, g, qpos, rounds, qlow, qhigh, gbelow, gabove⟩ :=
    roundWithAccuracy_normal (s / t) (m := (m <<< 53) / n) (e := e - f - 53)
      (accuracyOfFraction ((m <<< 53) % n) n)
      (by rw [Nat.le_div_iff_mul_le npos, Nat.shiftLeft_eq]; omega)
      (by rw [Nat.div_lt_iff_lt_mul npos, Nat.shiftLeft_eq]; omega) (by omega)
  refine ⟨q, g, qpos, ?_, qlow, qhigh, by omega, by omega⟩
  have divided : div .binary64 (.finite s m e pos) (.finite t n f npos) =
      .finite (s / t) q g qpos := by
    rw [div]
    simp only [divCore, target, least, shift, rounds]
  rw [unpack_div, opened, nopened, divided]
  exact unpack_pack_normal _ _ qlow qhigh (by omega) (by omega)

/-! ## Signs -/

theorem unpack_zero : (0.0 : Float).toModel.unpack = .zero .positive := rfl

theorem unpack_one :
    (1.0 : Float).toModel.unpack = .finite .positive (2 ^ 52) (-52) (by decide) := rfl

/-- Doubles are compared by their parts. -/
theorem lt_iff (x y : Float) :
    x < y ↔ UnpackedFloat.lt x.toModel.unpack y.toModel.unpack = true := by
  change (decide (Float.Model.lt _ _ = true)) = true ↔ _
  rw [decide_eq_true_eq]
  rfl

/-- The positive doubles, infinity among them. -/
theorem zero_lt_iff (x : Float) :
    (0.0 : Float) < x ↔ x.toModel.unpack = .infinity .positive ∨
      ∃ m e pos, x.toModel.unpack = .finite .positive m e pos := by
  rw [lt_iff, unpack_zero]
  cases x.toModel.unpack with
  | infinity s => cases s <;> simp [UnpackedFloat.lt, UnpackedFloat.compare]
  | notANumber => simp [UnpackedFloat.lt, UnpackedFloat.compare]
  | zero s => simp [UnpackedFloat.lt, UnpackedFloat.compare]
  | finite s m e pos => cases s <;> simp [UnpackedFloat.lt, UnpackedFloat.compare, pos]

theorem zero_lt_iff_of_isNormal {x : Float} {s : Sign} {low high : Int}
    (h : IsNormal x s low high) : (0.0 : Float) < x ↔ s = .positive := by
  obtain ⟨m, e, pos, opened, -⟩ := h
  rw [zero_lt_iff, opened]
  constructor
  · rintro (h | ⟨_, _, _, h⟩)
    · cases h
    · cases h
      rfl
  · rintro rfl
    exact .inr ⟨m, e, pos, rfl⟩

theorem not_zero_lt_of_lt_zero {x : Float} (h : x < 0.0) : ¬ (0.0 : Float) < x := by
  rw [lt_iff, unpack_zero] at h
  rw [zero_lt_iff]
  rintro (unpacked | ⟨_, _, _, unpacked⟩) <;> rw [unpacked] at h <;> cases h

/-- What is above one is above zero. -/
theorem zero_lt_of_one_lt {x : Float} (h : (1.0 : Float) < x) : (0.0 : Float) < x := by
  rw [lt_iff, unpack_one] at h
  rw [zero_lt_iff]
  cases unpacked : x.toModel.unpack with
  | infinity s =>
    cases s with
    | positive => exact .inl rfl
    | negative => rw [unpacked] at h; cases h
  | notANumber => rw [unpacked] at h; cases h
  | zero s => rw [unpacked] at h; cases h
  | finite s m e pos =>
    cases s with
    | positive => exact .inr ⟨m, e, pos, rfl⟩
    | negative => rw [unpacked] at h; cases h

/-- Moving a double into the range from 0 to 1 keeps whether it is positive. -/
theorem zero_lt_clamp_iff (x : Float) : (0.0 : Float) < Scalar.clamp x ↔ (0.0 : Float) < x := by
  have zero : ¬ (0.0 : Float) < 0.0 := by decide
  have one : (0.0 : Float) < 1.0 := by decide
  have less (a b : Float) : Scalar.less a b = decide (a < b) := rfl
  unfold Scalar.clamp
  simp only [less, decide_eq_true_eq]
  split
  · next below => exact iff_of_false zero (not_zero_lt_of_lt_zero below)
  · split
    · next above => exact iff_of_true one (zero_lt_of_one_lt above)
    · exact Iff.rfl

theorem unpack_ofInt_zero : (Scalar.ofInt 0 : Float).toModel.unpack = .zero .positive := rfl

/-- The double of a whole number of milliseconds that is not zero. -/
theorem isNormal_ofInt {i : Int} (low : Millis.least ≤ i) (high : i ≤ Millis.greatest)
    (pos : i ≠ 0) : IsNormal (Scalar.ofInt i) (signOf (i < 0)) (-52) 12 := by
  simp only [Millis.least, Millis.greatest] at low high
  exact isNormal_nearest (i < 0) (by omega) (by omega)

/-- **A quotient keeps the sign of what is divided**, the divisor being
positive and both whole numbers of milliseconds. -/
theorem zero_lt_quotient_iff {r t : Int} (low : Millis.least ≤ r) (high : r ≤ Millis.greatest)
    (pos : 0 < t) (word : t ≤ Millis.greatest) :
    (0.0 : Float) < Scalar.ofInt r / Scalar.ofInt t ↔ 0 < r := by
  have least : Millis.least = -0x8000000000000000 := rfl
  have divisor : IsNormal (Scalar.ofInt t) .positive (-52) 12 := by
    have sign : signOf (t < 0) = .positive := by
      rw [decide_eq_false (by omega)]
      rfl
    have := isNormal_ofInt (i := t) (by omega) word (by omega)
    rwa [sign] at this
  by_cases hr : r = 0
  · subst hr
    -- nothing divided by a number is nothing
    obtain ⟨m, e, mpos, opened, -⟩ := divisor
    have divided : div .binary64 (.zero .positive) (.finite .positive m e mpos) =
        .zero .positive := by
      rw [div]
      rfl
    have quotient :
        ((Scalar.ofInt 0 : Float) / Scalar.ofInt t).toModel.unpack = .zero .positive := by
      rw [unpack_div, opened, unpack_ofInt_zero, divided]
      rfl
    rw [zero_lt_iff, quotient]
    constructor
    · rintro (h | ⟨_, _, _, h⟩) <;> cases h
    · intro h
      omega
  · have dividend := isNormal_ofInt low high hr
    rw [zero_lt_iff_of_isNormal (isNormal_div dividend divisor)]
    by_cases negative : r < 0
    · rw [decide_eq_true negative]
      constructor
      · intro h
        cases h
      · intro h
        omega
    · rw [decide_eq_false negative]
      exact ⟨fun _ => by omega, fun _ => rfl⟩

end AttackMap.Binary64
