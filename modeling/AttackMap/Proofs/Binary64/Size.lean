import AttackMap.Proofs.Binary64.Value

/-!
# The size of what is rounded

The core operations on doubles compute exactly and then round once. What is
wanted here of the rounding is no more than its size: it gives a finite
double as long as the exact result is below the ceiling, and it does not
carry a result across a power of two that bounds it (`Rounds`). The sizes of
sums, differences and products follow (`Stands.add`, `Stands.sub`,
`Stands.mul`).

Rounding cuts a mantissa down to its 53 leading bits and adds one at most.
Where the bits left are all set, adding one would be infinity; below the
ceiling the first bit that is cut is not set, and none is added
(`high_of_lt_ceiling`).
-/

namespace AttackMap.Binary64

open Float.Model (Format UnpackedFloat totalExponent)
open Float.Model.UnpackedFloat

/-! ## Rounding -/

/-- Closed and opened again, the parts of a finite double are what they were. -/
theorem unpack_pack (s : Sign) {m : Nat} {e : Int} (pos : 0 < m) (h : IsParts m e) :
    (Float.Model.pack (.finite s m e pos)).unpack = .finite s m e pos := by
  by_cases full : 2 ^ 52 ≤ m
  · exact unpack_pack_normal s pos full h.small h.low h.high
  · obtain rfl : e = -1074 := h.full.resolve_left full
    have few : m.log2 < 52 := (Nat.log2_lt (by omega)).mpr (by omega)
    have mantissa : (BitVec.ofNat 52 m).toNat = m := Nat.mod_eq_of_lt (by omega)
    have word : UnpackedFloat.pack .binary64 (.finite s m (-1074) pos) =
        packComponents .binary64 s 0#11 (BitVec.ofNat 52 m) := by
      rw [UnpackedFloat.pack]
      dsimp only
      rw [if_neg (by decide), if_neg (by simp only [Format.mantissaBits]; omega)]
    show unpack .binary64 (UnpackedFloat.pack .binary64 (.finite s m (-1074) pos)) = _
    rw [word, unpack]
    simp only [unpackExponent_packComponents, unpackMantissa_packComponents,
      unpackSign_packComponents, Sign.ofBitVec_toBitVec]
    rw [if_neg (by decide), if_pos trivial, dif_neg]
    · simp only [mantissa]
      rfl
    · intro zero
      have none : m = 0 := mantissa.symm.trans (congrArg BitVec.toNat zero)
      omega

/-- A mantissa that is cut by some bits, and rounded: no more than one is added,
and none if the first bit that was cut is not set. -/
theorem roundedMantissa_cut (m k : Nat) :
    let r := (ExtendedMantissa.ofMantissaAndAccuracy m .exact >>> k).roundedMantissa
    m / 2 ^ k ≤ r ∧ r ≤ m / 2 ^ k + 1 ∧
      (k = 0 ∨ m / 2 ^ (k - 1) % 2 = 0 → r = m / 2 ^ k) := by
  intro r
  have bounds := roundedMantissa_bounds (ExtendedMantissa.ofMantissaAndAccuracy m .exact >>> k)
  rw [mantissa_shiftRight, mantissa_ofMantissaAndAccuracy] at bounds
  refine ⟨bounds.1, bounds.2, ?_⟩
  cases k with
  | zero => exact fun _ => (Nat.div_one m).symm
  | succ k =>
    intro clear
    have bit : m / 2 ^ k % 2 = 0 := clear.resolve_left (Nat.succ_ne_zero k)
    have cut := mantissa_shiftRight (ExtendedMantissa.ofMantissaAndAccuracy m .exact) k
    rw [mantissa_ofMantissaAndAccuracy] at cut
    have mantissa := mantissa_shiftRight (ExtendedMantissa.ofMantissaAndAccuracy m .exact) (k + 1)
    rw [mantissa_ofMantissaAndAccuracy] at mantissa
    have round :
        (ExtendedMantissa.ofMantissaAndAccuracy m .exact >>> (k + 1)).roundBit = false := by
      show ((ExtendedMantissa.ofMantissaAndAccuracy m .exact >>> k).mantissa % 2 != 0) = false
      rw [cut, bit]
      rfl
    have down (em : ExtendedMantissa) (clear : em.roundBit = false) :
        em.roundedMantissa = em.mantissa := by
      obtain ⟨mantissa, roundBit, stickyBit⟩ := em
      cases clear
      cases stickyBit <;> rfl
    exact (down _ round).trans mantissa

/-- The exponent to which a mantissa is cut. -/
def cutExponent (m : Nat) (e : Int) : Int := max (m.log2 + e - 52) (-1074)

theorem targetExponent_eq (m : Nat) (e : Int) :
    Format.targetExponent .binary64 (totalExponent m e) = cutExponent m e := by
  simp only [Format.targetExponent, totalExponent, Format.mantissaBits, Format.minExponent,
    cutExponent]
  omega

/-- A mantissa that is not too long for its exponent is not cut. -/
theorem shiftToTargetExponent_small {m : Nat} {e : Int} (small : m < 2 ^ 53) (low : -1074 ≤ e) :
    shiftToTargetExponent .binary64 m e .exact =
      (ExtendedMantissa.ofMantissaAndAccuracy m .exact, e) := by
  have few : m.log2 ≤ 52 := by
    by_cases zero : m = 0
    · rw [zero]
      decide
    · exact Nat.le_of_lt_succ ((Nat.log2_lt zero).mpr small)
  have stays : (cutExponent m e - e).toNat = 0 := by
    unfold cutExponent
    omega
  rw [shiftToTargetExponent, targetExponent_eq, shiftToExponent, stays]
  simp only [Int.add_zero, Int.natCast_zero]
  rfl

/-- A double from a mantissa with its leading bit, or one with the least exponent. -/
def closed (s : Sign) (r : Nat) (t : Int) : UnpackedFloat :=
  if h : r = 0 then .zero s
  else if r < 2 ^ 53 then .finite s r t (Nat.pos_of_ne_zero h)
  else .finite s (2 ^ 52) (t + 1) (by decide)

/-- Rounding cuts once, and moves the exponent if that has filled the mantissa up. -/
theorem roundWithAccuracy_exact (s : Sign) {m k : Nat} {e : Int} (pos : 0 < m)
    (cut : cutExponent m e = e + k) :
    roundWithAccuracy .binary64 s m e .exact =
      closed s (ExtendedMantissa.ofMantissaAndAccuracy m .exact >>> k).roundedMantissa (e + k) := by
  have low : -1074 ≤ e + k := by
    rw [← cut]
    exact le_max_right _ _
  have shift : (cutExponent m e - e).toNat = k := by omega
  have first : shiftToTargetExponent .binary64 m e .exact =
      (ExtendedMantissa.ofMantissaAndAccuracy m .exact >>> k, e + k) := by
    rw [shiftToTargetExponent, targetExponent_eq, shiftToExponent, shift]
  obtain ⟨-, most, -⟩ := roundedMantissa_cut m k
  have small : m / 2 ^ k < 2 ^ 53 := by
    rw [Nat.div_lt_iff_lt_mul (Nat.two_pow_pos k), ← Nat.pow_add]
    refine (Nat.log2_lt pos.ne').mp ?_
    unfold cutExponent at cut
    omega
  rw [roundWithAccuracy, first]
  dsimp only
  generalize (ExtendedMantissa.ofMantissaAndAccuracy m .exact >>> k).roundedMantissa = r at *
  by_cases fits : r < 2 ^ 53
  · rw [shiftToTargetExponent_small fits low, closed]
    by_cases zero : r = 0
    · rw [dif_pos zero]
      exact dif_pos zero
    · rw [dif_neg zero, if_pos fits]
      exact dif_neg zero
  · obtain rfl : r = 2 ^ 53 := by omega
    have again : cutExponent (2 ^ 53) (e + k) = e + k + 1 := by
      rw [cutExponent, Nat.log2_two_pow]
      omega
    have one : (e + (k : Int) + 1 - (e + k)).toNat = 1 := by omega
    have filled : closed s (2 ^ 53) (e + k) = .finite s (2 ^ 52) (e + k + 1) (by decide) := by
      rw [closed, dif_neg (by decide), if_neg fits]
    rw [filled, shiftToTargetExponent, targetExponent_eq, again, shiftToExponent, one]
    rfl

/-- The number of what is closed, unless that is infinite. -/
theorem number_closed (s : Sign) {r : Nat} {t : Int} (most : r ≤ 2 ^ 53) (low : -1074 ≤ t)
    (full : 2 ^ 52 ≤ r ∨ t = -1074) (high : t < 971 ∨ t = 971 ∧ r < 2 ^ 53) :
    number (Float.Model.pack (closed s r t)).unpack = some ((s.apply r : ℚ) * 2 ^ t) := by
  rw [closed]
  split
  · next zero =>
    have none : (Float.Model.pack (.zero s)).unpack = .zero s := by cases s <;> rfl
    rw [none, number, zero]
    cases s <;> simp [Sign.apply]
  · split
    · next fits =>
      rw [unpack_pack s _ ⟨fits, low, by omega, full⟩, number]
    · next fills =>
      obtain rfl : r = 2 ^ 53 := by omega
      rw [unpack_pack s _ ⟨by decide, by omega, by omega, .inl (Nat.le_refl _)⟩, number,
        zpow_add_one₀ two_ne_zero]
      congr 1
      cases s
      · simp only [Sign.apply]
        push_cast
        ring
      · simp only [Sign.apply]
        push_cast
        ring

/-- A rounded number: `x` is finite, and its number is within every power of two that
is above the exact one, `p`. -/
def Rounds (p : ℚ) (x : Float) : Prop :=
  ∃ v, Stands x v ∧ ∀ k : Int, -1074 ≤ k → |p| < 2 ^ k → |v| ≤ 2 ^ k

theorem two_zpow_log2_le {m : Nat} (pos : 0 < m) (e : Int) :
    (2 : ℚ) ^ (m.log2 + e) ≤ m * 2 ^ e := by
  rw [zpow_add₀ two_ne_zero, zpow_natCast]
  exact mul_le_mul_of_nonneg_right (two_zpow_le pos.ne').1 (by positivity)

theorem ceiling_lt : ceiling < 2 ^ (1024 : Int) := by
  rw [ceiling, show (1024 : Int) = 970 + (54 : Nat) from rfl, two_zpow_add]
  exact mul_lt_mul_of_pos_right (by norm_num) (by positivity)

/-- A number below the ceiling is not rounded up to infinity: where its significand
is full the first bit that is cut is not set. -/
theorem high_of_lt_ceiling {m k r : Nat} {e : Int} (pos : 0 < m)
    (cut : cutExponent m e = e + k) (small : m / 2 ^ k < 2 ^ 53)
    (rounded : r ≤ m / 2 ^ k + 1 ∧ (k = 0 ∨ m / 2 ^ (k - 1) % 2 = 0 → r = m / 2 ^ k))
    (below : (m : ℚ) * 2 ^ e < ceiling) : e + k < 971 ∨ e + k = 971 ∧ r < 2 ^ 53 := by
  have log : (m.log2 : Int) + e < 1024 :=
    lt_of_two_zpow_lt ((two_zpow_log2_le pos e).trans_lt (below.trans ceiling_lt))
  have atMost : e + (k : Int) ≤ 971 := by
    rw [← cut, cutExponent]
    omega
  rcases lt_or_eq_of_le atMost with less | same
  · exact .inl less
  · refine .inr ⟨same, ?_⟩
    by_contra fills
    obtain ⟨most, exact_of⟩ := rounded
    have set : ¬(k = 0 ∨ m / 2 ^ (k - 1) % 2 = 0) := by
      intro clear
      have := exact_of clear
      omega
    obtain ⟨j, rfl⟩ : ∃ j, k = j + 1 := ⟨k - 1, by omega⟩
    rw [Nat.add_sub_cancel] at set
    have halves : m / 2 ^ (j + 1) = m / 2 ^ j / 2 := by
      rw [Nat.pow_succ, Nat.div_div_eq_div_mul]
    have all : 2 ^ 54 - 1 ≤ m / 2 ^ j := by omega
    have many : (2 ^ 54 - 1) * 2 ^ j ≤ m := (Nat.le_div_iff_mul_le (Nat.two_pow_pos j)).mp all
    have reaches : ceiling ≤ m * 2 ^ e := by
      have manyQ : (2 ^ 54 - 1) * (2 : ℚ) ^ j ≤ m := by
        have many : (2 ^ 54 - 1 : Nat) * 2 ^ j ≤ m := many
        have cast : ((2 ^ 54 - 1 : Nat) : ℚ) = 2 ^ 54 - 1 := by norm_num
        rw [← cast]
        exact_mod_cast many
      have power : (2 : ℚ) ^ (970 : Int) = 2 ^ j * 2 ^ e := by
        rw [← two_zpow_add]
        congr 1
        omega
      rw [ceiling, power, ← mul_assoc]
      exact mul_le_mul_of_nonneg_right manyQ (by positivity)
    exact absurd below (not_lt.mpr reaches)

/-- Rounding does not carry a number across a power of two. -/
theorem le_two_zpow_of_lt {m k r : Nat} {e p : Int} (pos : 0 < m)
    (cut : cutExponent m e = e + k) (most : r ≤ m / 2 ^ k + 1) (least : -1074 ≤ p)
    (below : (m : ℚ) * 2 ^ e < 2 ^ p) : (r : ℚ) * 2 ^ (e + (k : Int)) ≤ 2 ^ p := by
  have log : (m.log2 : Int) + e < p := lt_of_two_zpow_lt ((two_zpow_log2_le pos e).trans_lt below)
  have under : e + (k : Int) ≤ p := by
    rw [← cut, cutExponent]
    omega
  obtain ⟨n, rfl⟩ : ∃ n : Nat, p = e + (k : Int) + n := ⟨(p - (e + k)).toNat, by omega⟩
  have few : m < 2 ^ n * 2 ^ k := by
    rw [two_zpow_add, two_zpow_add, ← mul_assoc] at below
    have := lt_of_mul_lt_mul_right below (by positivity)
    exact_mod_cast this
  have cuts : m / 2 ^ k < 2 ^ n := (Nat.div_lt_iff_lt_mul (Nat.two_pow_pos k)).mpr few
  have rounds : (r : ℚ) ≤ 2 ^ n := by
    have : r ≤ 2 ^ n := by omega
    exact_mod_cast this
  rw [two_zpow_add (e + k) n]
  exact mul_le_mul_of_nonneg_right rounds (by positivity)

/-- Rounding a mantissa that has enough bits. -/
theorem rounds_roundWithAccuracy (s : Sign) {m : Nat} {e : Int} (pos : 0 < m)
    (long : 52 ≤ m.log2 ∨ e ≤ -1074) (below : (m : ℚ) * 2 ^ e < ceiling) {x : Float}
    (is : x.toModel = Float.Model.pack (roundWithAccuracy .binary64 s m e .exact)) :
    Rounds (s.apply m * 2 ^ e) x := by
  obtain ⟨k, cut⟩ : ∃ k : Nat, cutExponent m e = e + k := by
    refine ⟨(cutExponent m e - e).toNat, ?_⟩
    unfold cutExponent
    omega
  have bound : (m.log2 : Int) < 53 + k ∧ (52 + k ≤ (m.log2 : Int) ∨ e + k = -1074) := by
    unfold cutExponent at cut
    omega
  obtain ⟨low, high⟩ := (Nat.log2_eq_iff pos.ne').mp rfl
  have small : m / 2 ^ k < 2 ^ 53 := by
    rw [Nat.div_lt_iff_lt_mul (Nat.two_pow_pos k), ← Nat.pow_add]
    exact (Nat.log2_lt pos.ne').mp (by omega)
  obtain ⟨least, most, exact_of⟩ := roundedMantissa_cut m k
  have full : 2 ^ 52 ≤ (ExtendedMantissa.ofMantissaAndAccuracy m .exact >>> k).roundedMantissa ∨
      e + (k : Int) = -1074 := by
    refine bound.2.imp_left fun many => le_trans ?_ least
    rw [Nat.le_div_iff_mul_le (Nat.two_pow_pos k), ← Nat.pow_add]
    exact (Nat.pow_le_pow_right (by decide) (by omega)).trans low
  have finite := high_of_lt_ceiling pos cut small ⟨most, exact_of⟩ below
  have value := number_closed s (most.trans small) (by unfold cutExponent at cut; omega) full finite
  rw [← roundWithAccuracy_exact s pos cut, ← is] at value
  refine ⟨_, value, fun p least above => ?_⟩
  have power (t : Int) : (0 : ℚ) < 2 ^ t := by positivity
  rw [abs_mul, abs_apply, abs_of_pos (power _)] at above ⊢
  exact le_two_zpow_of_lt pos cut most least above

/-- Rounding any mantissa: one with too few bits is given more. -/
theorem rounds_round (s : Sign) {m : Nat} {e : Int} (pos : 0 < m)
    (below : (m : ℚ) * 2 ^ e < ceiling) {x : Float}
    (is : x.toModel = Float.Model.pack (round .binary64 s m e)) :
    Rounds (s.apply m * 2 ^ e) x := by
  rw [UnpackedFloat.round, targetExponent_eq, decreaseExponent] at is
  dsimp only at is
  generalize same : (e - cutExponent m e).toNat = k at is
  have shifted : m <<< k = m * 2 ^ k := Nat.shiftLeft_eq m k
  have value : ((m <<< k : Nat) : ℚ) * 2 ^ (e - (k : Int)) = m * 2 ^ e := by
    rw [shifted]
    push_cast
    rw [mul_assoc, ← two_zpow_add, sub_add_cancel]
  have log : (m <<< k).log2 = m.log2 + k := by
    obtain ⟨low, high⟩ := (Nat.log2_eq_iff pos.ne').mp rfl
    rw [shifted]
    refine (Nat.log2_eq_iff (Nat.mul_pos pos (Nat.two_pow_pos k)).ne').mpr ⟨?_, ?_⟩
    · rw [Nat.pow_add]
      exact Nat.mul_le_mul_right _ low
    · rw [Nat.add_right_comm, Nat.pow_add]
      exact Nat.mul_lt_mul_of_pos_right high (Nat.two_pow_pos k)
  have long : 52 ≤ (m <<< k).log2 ∨ e - (k : Int) ≤ -1074 := by
    rw [log]
    unfold cutExponent at same
    omega
  have rounds := rounds_roundWithAccuracy s (m := m <<< k) (e := e - k)
    (by rw [shifted]; exact Nat.mul_pos pos (Nat.two_pow_pos k)) long (value ▸ below) is
  have signed : (s.apply (m <<< k : Nat) : ℚ) * 2 ^ (e - (k : Int)) = s.apply m * 2 ^ e := by
    cases s with
    | positive => simpa only [Sign.apply, Int.cast_natCast] using value
    | negative =>
      simpa only [Sign.apply, Int.cast_neg, Int.cast_natCast, neg_mul] using congrArg Neg.neg value
  rwa [signed] at rounds

/-! ## Sums, differences and products -/

/-- What is closed as it was opened has the same number. -/
theorem Opened.rounds {a : UnpackedFloat} {q : ℚ} (h : Opened a q) {x : Float}
    (is : x.toModel = Float.Model.pack a) : Rounds q x := by
  refine ⟨q, ?_, fun k _ below => below.le⟩
  rw [Stands, is]
  cases h with
  | zero s => cases s <;> rfl
  | finite s m e pos isParts =>
    rw [unpack_pack s pos isParts]
    rfl

theorem apply_neg (s : Sign) (n : Int) : (-s).apply n = -s.apply n := by
  cases s
  · exact (Int.neg_neg n).symm
  · rfl

theorem Opened.neg {a : UnpackedFloat} {q : ℚ} (h : Opened a q) : Opened a.neg (-q) := by
  cases h with
  | zero s =>
    rw [neg_zero]
    exact .zero (-s)
  | finite s m e pos isParts =>
    rw [← neg_mul, ← Int.cast_neg, ← apply_neg]
    exact .finite (-s) m e pos isParts

/-- A mantissa with a sign of its own. -/
theorem rounds_normalize {n e : Int} (z : Sign) (below : |(n : ℚ) * 2 ^ e| < ceiling) {x : Float}
    (is : x.toModel = Float.Model.pack (normalize .binary64 n e z)) : Rounds (n * 2 ^ e) x := by
  have unit : (0 : ℚ) < 2 ^ e := by positivity
  rw [abs_mul, abs_of_pos unit] at below
  unfold UnpackedFloat.normalize at is
  split at is
  · next less =>
    have negative : n < 0 := Int.compare_eq_lt.mp less
    obtain ⟨m, rfl⟩ : ∃ m : Nat, n = -m := ⟨(-n).toNat, by omega⟩
    rw [neg_neg, Int.toNat_natCast] at is
    rw [Int.cast_neg, abs_neg, Int.cast_natCast, Nat.abs_cast] at below
    exact rounds_round .negative (by omega) below is
  · next same =>
    have none : n = 0 := Int.compare_eq_eq.mp same
    rw [none, Int.cast_zero, zero_mul]
    exact (Opened.zero z).rounds is
  · next more =>
    have positive : 0 < n := Int.compare_eq_gt.mp more
    obtain ⟨m, rfl⟩ : ∃ m : Nat, n = m := ⟨n.toNat, by omega⟩
    rw [Int.toNat_natCast] at is
    rw [Int.cast_natCast, Nat.abs_cast] at below
    exact rounds_round .positive (by omega) below is

/-- A number in smaller units. -/
theorem decreaseExponent_value (s : Sign) (m : Nat) {e least : Int} (le : least ≤ e) :
    ((s.apply (decreaseExponent m e least).1 : Int) : ℚ) * 2 ^ least = s.apply m * 2 ^ e := by
  obtain ⟨k, rfl⟩ : ∃ k : Nat, e = least + k := ⟨(e - least).toNat, by omega⟩
  have shift : (least + (k : Int) - least).toNat = k := by omega
  rw [decreaseExponent, shift, Nat.shiftLeft_eq, two_zpow_add]
  cases s <;> simp only [Sign.apply] <;> push_cast <;> ring

theorem Opened.add {a b : UnpackedFloat} {p q : ℚ} (ha : Opened a p) (hb : Opened b q)
    (below : |p + q| < ceiling) {x : Float}
    (is : x.toModel = Float.Model.pack (UnpackedFloat.add .binary64 a b)) : Rounds (p + q) x := by
  cases ha with
  | zero s =>
    rw [zero_add]
    cases hb with
    | zero t =>
      rw [UnpackedFloat.add] at is
      split at is <;> exact (Opened.zero _).rounds is
    | finite t n f npos isParts => exact (Opened.finite t n f npos isParts).rounds is
  | finite s m e pos isParts =>
    cases hb with
    | zero t =>
      rw [add_zero]
      exact (Opened.finite s m e pos isParts).rounds is
    | finite t n f npos isParts' =>
      have sum : ((s.apply (decreaseExponent m e (min e f)).1 +
            t.apply (decreaseExponent n f (min e f)).1 : Int) : ℚ) * 2 ^ min e f =
          s.apply m * 2 ^ e + t.apply n * 2 ^ f := by
        rw [Int.cast_add, add_mul, decreaseExponent_value s m (min_le_left e f),
          decreaseExponent_value t n (min_le_right e f)]
      rw [← sum] at below ⊢
      exact rounds_normalize .positive below is

/-- A difference is the sum with the other sign. -/
theorem unpacked_sub_eq (a b : UnpackedFloat) :
    UnpackedFloat.sub .binary64 a b = UnpackedFloat.add .binary64 a b.neg := by
  have twice (s : Sign) : - -s = s := by cases s <;> rfl
  cases a with
  | notANumber => cases b <;> rfl
  | infinity s => cases b <;> rfl
  | zero s => cases b <;> rfl
  | finite s m e pos =>
    cases b with
    | finite t n f npos =>
      rw [UnpackedFloat.sub, UnpackedFloat.neg, UnpackedFloat.add]
      simp only [apply_neg, Int.sub_eq_add_neg]
    | _ => rfl

theorem apply_mul (s t : Sign) (m n : Nat) :
    (s * t).apply (m * n : Nat) = s.apply m * t.apply n := by
  cases s <;> cases t
  · exact (Int.natCast_mul m n).trans (Int.neg_mul_neg m n).symm
  · exact (congrArg Neg.neg (Int.natCast_mul m n)).trans (Int.neg_mul m n).symm
  · exact (congrArg Neg.neg (Int.natCast_mul m n)).trans (Int.mul_neg m n).symm
  · exact Int.natCast_mul m n

/-- A product has as many bits as a factor. -/
theorem long_mul {m n : Nat} {e f : Int} (pos : 0 < m) (npos : 0 < n) (isParts : IsParts m e)
    (isParts' : IsParts n f) : 52 ≤ (m * n).log2 ∨ e + f ≤ -1074 := by
  rcases isParts.full with full | least
  · refine .inl ((Nat.le_log2 (Nat.mul_pos pos npos).ne').mpr ?_)
    exact full.trans (Nat.le_mul_of_pos_right m npos)
  · rcases isParts'.full with full | least'
    · refine .inl ((Nat.le_log2 (Nat.mul_pos pos npos).ne').mpr ?_)
      exact full.trans (Nat.le_mul_of_pos_left n pos)
    · exact .inr (by omega)

variable {x y : Float} {p q : ℚ}

theorem Stands.add (hx : Stands x p) (hy : Stands y q) (below : |p + q| < ceiling) :
    Rounds (p + q) (x + y) :=
  hx.opened.add hy.opened below rfl

theorem Stands.sub (hx : Stands x p) (hy : Stands y q) (below : |p - q| < ceiling) :
    Rounds (p - q) (x - y) := by
  rw [sub_eq_add_neg] at below ⊢
  refine hx.opened.add hy.opened.neg below ?_
  rw [← unpacked_sub_eq]
  rfl

theorem Stands.mul (hx : Stands x p) (hy : Stands y q) (below : |p * q| < ceiling) :
    Rounds (p * q) (x * y) := by
  have is : (x * y).toModel =
      Float.Model.pack (UnpackedFloat.mul .binary64 x.toModel.unpack y.toModel.unpack) := rfl
  have ha := hx.opened
  have hb := hy.opened
  generalize x.toModel.unpack = a at is ha
  generalize y.toModel.unpack = b at is hb
  cases ha with
  | zero s =>
    rw [zero_mul]
    cases hb with
    | zero t => exact (Opened.zero (s * t)).rounds is
    | finite t n f npos isParts => exact (Opened.zero (s * t)).rounds is
  | finite s m e pos isParts =>
    cases hb with
    | zero t =>
      rw [mul_zero]
      exact (Opened.zero (s * t)).rounds is
    | finite t n f npos isParts' =>
      have value : ((s * t).apply (m * n : Nat) : ℚ) * 2 ^ (e + f) =
          s.apply m * 2 ^ e * (t.apply n * 2 ^ f) := by
        rw [apply_mul, Int.cast_mul, zpow_add₀ two_ne_zero]
        ring
      have unit : (0 : ℚ) < 2 ^ (e + f) := by positivity
      rw [← value] at below ⊢
      rw [abs_mul, abs_apply, abs_of_pos unit] at below
      exact rounds_roundWithAccuracy (s * t) (Nat.mul_pos pos npos)
        (long_mul pos npos isParts isParts') below is

end AttackMap.Binary64
