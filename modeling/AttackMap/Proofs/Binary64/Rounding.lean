import AttackMap.Decimal.Shortest
import AttackMap.Proofs.Binary64.Sign

/-!
# Rounding to the nearest double

Around each finite double lies an interval of numbers that round to it
(`Decimal.Basin`). Here the interval is taken as what it says about rational
numbers (`Basin.Contains`) and is proved to be right: every quotient in it is
closed into the word of the double (`magnitudeBits_eq`), so every decimal
fraction in it is read as the double (`ofDecimal?_eq_some`).

In units of its last bit the interval of a double reaches half a unit up and
half a unit down, but only a quarter down where the binade begins
(`contains_iff`). That is the one place where the unit of a quotient and the
unit of the double it rounds to are not the same.
-/

namespace AttackMap.Binary64

open Float.Model (Format)
open Float.Model.UnpackedFloat

/-! ## The parts of a finite double -/

theorem toNat_unpackExponent (b : BitVec 64) :
    (@unpackExponent .binary64 b).toNat = (b.toNat >>> 52) % 2048 := by
  rw [unpackExponent, BitVec.toNat_cast, BitVec.extractLsb_toNat]
  rfl

/-- The exponent of a finite double is not the one that means infinity. -/
theorem exponent_ne_of_isFinite {x : Float} (finite : x.isFinite = true) :
    (x.toBits.toNat >>> 52) % 2048 ≠ 2047 := by
  intro ones
  have all : @unpackExponent .binary64 x.toModel.toBits.toBitVec = -1#11 := by
    apply BitVec.eq_of_toNat_eq
    rw [toNat_unpackExponent]
    exact ones
  have unpacked : x.toModel.unpack.isFinite = true := finite
  rw [Float.Model.unpack, unpack] at unpacked
  simp only at unpacked
  rw [if_pos all] at unpacked
  split at unpacked <;> cases unpacked

/-- A significand and an exponent as a finite double has them: the leading bit
is set, or the exponent is the least. -/
structure IsParts (m : Nat) (e : Int) : Prop where
  small : m < 2 ^ 53
  low : -1074 ≤ e
  high : e ≤ 971
  full : 2 ^ 52 ≤ m ∨ e = -1074

/-- The word of a finite double, without the sign. -/
def wordOf (m : Nat) (e : Int) : Nat := m + (e + 1074).toNat * leading

/-- A finite double has parts, and is put together from them. -/
theorem exists_parts {x : Float} (finite : x.isFinite = true) :
    ∃ negative m e, parts x = .finite negative m e ∧ IsParts m e ∧
      x.toBits.toNat = wordOf m e + if negative then 1 <<< 63 else 0 := by
  have exponent := exponent_ne_of_isFinite finite
  have word : x.toBits.toNat < 2 ^ 64 := x.toBits.toNat_lt
  have lead : leading = 2 ^ 52 := rfl
  have sign : (if x.toBits.toNat >>> 63 == 1 then 1 <<< 63 else 0) =
      x.toBits.toNat / 2 ^ 63 * 2 ^ 63 := by
    rw [Nat.shiftRight_eq_div_pow]
    split
    · next one => rw [eq_of_beq one]; rfl
    · next other =>
      have := ne_of_beq_false (Bool.eq_false_of_not_eq_true other)
      omega
  unfold parts
  simp only [lead]
  rw [Nat.shiftRight_eq_div_pow] at exponent ⊢
  rw [if_neg exponent]
  split
  · refine ⟨_, _, _, rfl, ⟨by omega, by omega, by omega, .inr rfl⟩, ?_⟩
    rw [sign, wordOf, lead]
    omega
  · refine ⟨_, _, _, rfl, ⟨by omega, by omega, by omega, .inl (by omega)⟩, ?_⟩
    rw [sign, wordOf, lead]
    omega

/-! ## Quotients of naturals -/

/-- A power as the quotient of its two halves, of which one is one. -/
theorem zpow_eq_div (b : ℚ) (e : ℤ) : b ^ e = b ^ e.toNat / b ^ (-e).toNat := by
  obtain ⟨n, rfl | rfl⟩ := e.eq_nat_or_neg
  · simp
  · simp

theorem inUnits_ratio (num den : Nat) (e : Int) :
    ((inUnits num den e).1 : ℚ) / (inUnits num den e).2 = num / den / 2 ^ e := by
  rw [inUnits, Nat.shiftLeft_eq, Nat.shiftLeft_eq, zpow_eq_div 2]
  push_cast
  field_simp

theorem inUnits_den_pos {den : Nat} (pos : 0 < den) (num : Nat) (e : Int) :
    0 < (inUnits num den e).2 := by
  rw [inUnits, Nat.shiftLeft_eq, Nat.shiftLeft_eq]
  exact Nat.mul_pos pos (Nat.two_pow_pos _)

/-- What is at most half a step away is the nearest, where a half has to go to an
even number. -/
theorem roundEven_of_bounds {n d k : Nat} (pos : 0 < d) (low : 2 * k * d ≤ 2 * n + d)
    (high : 2 * n ≤ 2 * k * d + d)
    (tie : k % 2 = 1 → 2 * k * d ≠ 2 * n + d ∧ 2 * n ≠ 2 * k * d + d) :
    roundEven n d = k := by
  have split := Nat.div_add_mod n d
  have rest := Nat.mod_lt n pos
  unfold roundEven
  simp only
  generalize n / d = q at *
  generalize n % d = r at *
  subst split
  -- `k` is the quotient or its successor
  have near : k = q ∨ k = q + 1 := by
    have below : q ≤ k := by
      by_contra less
      have := Nat.mul_le_mul_left d (Nat.lt_of_not_le less)
      nlinarith
    have above : k ≤ q + 1 := by
      by_contra more
      have := Nat.mul_le_mul_left d (Nat.lt_of_not_le more)
      nlinarith
    omega
  obtain rfl | rfl := near
  · have half : 2 * r ≤ d := by linarith
    have even : 2 * r = d → k % 2 = 0 := by
      intro same
      by_contra odd
      exact (tie (by omega)).2 (by linarith)
    split
    · rfl
    · rw [if_neg (by omega), if_pos (even (by omega))]
  · have half : d ≤ 2 * r := by linarith
    have odd : d = 2 * r → q % 2 = 1 := by
      intro same
      by_contra even
      exact (tie (by omega)).1 (by linarith)
    rw [if_neg (by omega)]
    split
    · rfl
    · have := odd (by omega)
      rw [if_neg (by omega)]

theorem roundEven_eq {n d k : Nat} (pos : 0 < d) (low : (k : ℚ) - 1 / 2 ≤ n / d)
    (high : (n : ℚ) / d ≤ k + 1 / 2)
    (tie : k % 2 = 1 → (k : ℚ) - 1 / 2 ≠ n / d ∧ (n : ℚ) / d ≠ k + 1 / 2) :
    roundEven n d = k := by
  have posQ : (0 : ℚ) < d := by exact_mod_cast pos
  apply roundEven_of_bounds pos
  · rw [le_div_iff₀ posQ] at low
    have : (2 * k * d : ℚ) ≤ 2 * n + d := by linarith
    exact_mod_cast this
  · rw [div_le_iff₀ posQ] at high
    have : (2 * n : ℚ) ≤ 2 * k * d + d := by linarith
    exact_mod_cast this
  · intro odd
    obtain ⟨below, above⟩ := tie odd
    constructor
    · intro same
      apply below
      have : (2 * k * d : ℚ) = 2 * n + d := by exact_mod_cast same
      rw [eq_div_iff posQ.ne']
      linarith
    · intro same
      apply above
      have : (2 * n : ℚ) = 2 * k * d + d := by exact_mod_cast same
      rw [div_eq_iff posQ.ne']
      linarith

/-! ## The unit of a quotient -/

theorem two_zpow_le {num : Nat} (pos : num ≠ 0) :
    (2 : ℚ) ^ num.log2 ≤ num ∧ (num : ℚ) < 2 ^ (num.log2 + 1) := by
  obtain ⟨low, high⟩ := (Nat.log2_eq_iff pos).mp rfl
  exact ⟨by exact_mod_cast low, by exact_mod_cast high⟩

theorem lt_of_two_zpow_lt {a b : Int} (h : (2 : ℚ) ^ a < 2 ^ b) : a < b :=
  (zpow_lt_zpow_iff_right₀ one_lt_two).mp h

/-- The logarithms of its parts bound a quotient. -/
theorem two_zpow_lt_div {num den : Nat} (npos : num ≠ 0) (dpos : den ≠ 0) :
    (2 : ℚ) ^ ((num.log2 : Int) - den.log2 - 1) < num / den := by
  rw [lt_div_iff₀ (by positivity)]
  calc
    (2 : ℚ) ^ ((num.log2 : Int) - den.log2 - 1) * den
        < 2 ^ ((num.log2 : Int) - den.log2 - 1) * 2 ^ (den.log2 + 1) := by
      gcongr
      exact (two_zpow_le dpos).2
    _ = 2 ^ num.log2 := by
      rw [← zpow_natCast, ← zpow_natCast, ← zpow_add₀ two_ne_zero]
      congr 1
      push_cast
      ring
    _ ≤ num := (two_zpow_le npos).1

theorem div_lt_two_zpow {num den : Nat} (npos : num ≠ 0) (dpos : den ≠ 0) :
    (num : ℚ) / den < 2 ^ ((num.log2 : Int) - den.log2 + 1) := by
  rw [div_lt_iff₀ (by positivity)]
  calc
    (num : ℚ) < 2 ^ (num.log2 + 1) := (two_zpow_le npos).2
    _ = 2 ^ ((num.log2 : Int) - den.log2 + 1) * 2 ^ den.log2 := by
      rw [← zpow_natCast, ← zpow_natCast, ← zpow_add₀ two_ne_zero]
      congr 1
      push_cast
      ring
    _ ≤ 2 ^ ((num.log2 : Int) - den.log2 + 1) * den := by
      gcongr
      exact (two_zpow_le dpos).1

/-- The unit in which a quotient has 53 leading bits, or the least of all. -/
theorem unitExponent_eq {num den : Nat} (npos : num ≠ 0) (dpos : den ≠ 0) {t : Int}
    (low : (2 : ℚ) ^ (t + 52) ≤ num / den) (high : (num : ℚ) / den < 2 ^ (t + 53)) :
    unitExponent num den = max (-1074) t := by
  -- the guess is right or one too high
  have atMost := lt_of_two_zpow_lt (low.trans_lt (div_lt_two_zpow npos dpos))
  have atLeast := lt_of_two_zpow_lt ((two_zpow_lt_div npos dpos).trans high)
  have ratio := inUnits_ratio num den ((num.log2 : Int) - den.log2 - 52)
  have dpos' := inUnits_den_pos (Nat.pos_of_ne_zero dpos) num ((num.log2 : Int) - den.log2 - 52)
  unfold unitExponent
  simp only
  generalize inUnits num den ((num.log2 : Int) - den.log2 - 52) = parts at *
  have posQ : (0 : ℚ) < parts.2 := by exact_mod_cast dpos'
  have small : parts.1 < parts.2 * leading ↔
      (num : ℚ) / den < 2 ^ ((num.log2 : Int) - den.log2) := by
    have unit : (2 : ℚ) ^ ((num.log2 : Int) - den.log2) =
        2 ^ 52 * 2 ^ ((num.log2 : Int) - den.log2 - 52) := by
      rw [← zpow_natCast, ← zpow_add₀ two_ne_zero]
      congr 1
      push_cast
      ring
    rw [unit, ← div_lt_iff₀ (by positivity), ← ratio, div_lt_iff₀ posQ, mul_comm]
    exact_mod_cast Iff.rfl
  congr 1
  split
  · next less =>
    have := lt_of_two_zpow_lt (low.trans_lt (small.mp less))
    omega
  · next more =>
    have := lt_of_two_zpow_lt ((not_lt.mp (mt small.mpr more)).trans_lt high)
    omega

theorem two_zpow_add (e : Int) (n : Nat) : (2 : ℚ) ^ (e + n) = 2 ^ n * 2 ^ e := by
  rw [zpow_add₀ two_ne_zero, zpow_natCast, mul_comm]

/-- A power below so few units is below their power. -/
theorem lt_of_le_units {e t : Int} {q : ℚ} {n : Nat} (few : q < 2 ^ n)
    (low : (2 : ℚ) ^ t ≤ q * 2 ^ e) : t < e + n := by
  refine lt_of_two_zpow_lt (low.trans_lt ?_)
  rw [two_zpow_add]
  exact mul_lt_mul_of_pos_right few (by positivity)

/-- A power above so many units is above their power. -/
theorem lt_of_units_lt {e t : Int} {q : ℚ} {n : Nat} (many : 2 ^ n ≤ q)
    (high : q * 2 ^ e < (2 : ℚ) ^ t) : e + n < t := by
  refine lt_of_two_zpow_lt (lt_of_le_of_lt ?_ high)
  rw [two_zpow_add]
  exact mul_le_mul_of_nonneg_right many (by positivity)

/-! ## The interval of a double -/

/-- How far the interval of a double reaches down, in quarters of its last
bit. -/
def reach (m : Nat) (e : Int) : Nat := if m = leading ∧ -1074 < e then 1 else 2

theorem reach_le (m : Nat) (e : Int) : reach m e ≤ 2 := by
  unfold reach
  split <;> omega

end AttackMap.Binary64

namespace AttackMap.Decimal

/-- The numbers in an interval. -/
structure Basin.Contains (b : Basin) (v : ℚ) : Prop where
  low : b.low * 2 ^ b.exponent ≤ v
  high : v ≤ b.high * 2 ^ b.exponent
  ends : b.closed = false → b.low * 2 ^ b.exponent ≠ v ∧ v ≠ b.high * 2 ^ b.exponent

end AttackMap.Decimal

namespace AttackMap.Binary64

open Decimal (Basin)

/-- The interval in units of the last bit; its ends belong to even
significands. -/
theorem contains_iff {m : Nat} {e : Int} (pos : m ≠ 0) {q : ℚ} :
    (Basin.of m e).Contains (q * 2 ^ e) ↔
      (m : ℚ) - reach m e / 4 ≤ q ∧ q ≤ m + 1 / 2 ∧
        (m % 2 = 1 → (m : ℚ) - reach m e / 4 ≠ q ∧ q ≠ m + 1 / 2) := by
  have unitPos : (0 : ℚ) < 2 ^ e := by positivity
  have quarter : (2 : ℚ) ^ (e - 2) = 2 ^ e / 4 := by
    rw [zpow_sub₀ two_ne_zero]
    norm_num
  have enough : reach m e ≤ 4 * m := by
    have := reach_le m e
    omega
  have low : ((4 * m - reach m e : Nat) : ℚ) * 2 ^ (e - 2) = (m - reach m e / 4) * 2 ^ e := by
    rw [quarter]
    push_cast [enough]
    ring
  have high : ((4 * m + 2 : Nat) : ℚ) * 2 ^ (e - 2) = (m + 1 / 2) * 2 ^ e := by
    rw [quarter]
    push_cast
    ring
  have odd : decide (m % 2 = 0) = false ↔ m % 2 = 1 := by
    rw [decide_eq_false_iff_not]
    omega
  have of : Basin.of m e = ⟨4 * m - reach m e, 4 * m, 4 * m + 2, m % 2 = 0, e - 2⟩ := rfl
  have cancel (a b : ℚ) : a * 2 ^ e = b * 2 ^ e ↔ a = b := mul_left_inj' unitPos.ne'
  constructor
  · rintro ⟨lower, upper, ends⟩
    simp only [of, low, high, odd, ne_eq, cancel, mul_le_mul_iff_left₀ unitPos] at lower upper ends
    exact ⟨lower, upper, ends⟩
  · rintro ⟨lower, upper, ends⟩
    constructor <;> simp only [of, low, high, odd, ne_eq, cancel, mul_le_mul_iff_left₀ unitPos]
    · exact lower
    · exact upper
    · exact ends

/-- Every number is so many units of a double's last bit. -/
theorem exists_units (v : ℚ) (e : Int) : ∃ q : ℚ, v = q * 2 ^ e :=
  ⟨v / 2 ^ e, (div_mul_cancel₀ _ (zpow_ne_zero e two_ne_zero)).symm⟩

/-! ## The nearest double -/

/-- The word of a quotient whose unit and whose number of units are known. -/
theorem magnitudeBits_of {num den k : Nat} {t e : Int} (npos : num ≠ 0) (dpos : den ≠ 0)
    (low : (2 : ℚ) ^ (t + 52) ≤ num / den) (high : (num : ℚ) / den < 2 ^ (t + 53))
    (unit : max (-1074) t = e) (below : (k : ℚ) - 1 / 2 ≤ num / den / 2 ^ e)
    (above : (num : ℚ) / den / 2 ^ e ≤ k + 1 / 2)
    (tie : k % 2 = 1 → (k : ℚ) - 1 / 2 ≠ num / den / 2 ^ e ∧ (num : ℚ) / den / 2 ^ e ≠ k + 1 / 2) :
    magnitudeBits num den = min (k + (e + 1074).toNat * leading) (2047 * leading) := by
  have units : roundEven (inUnits num den e).1 (inUnits num den e).2 = k := by
    rw [← inUnits_ratio] at below above tie
    exact roundEven_eq (inUnits_den_pos (Nat.pos_of_ne_zero dpos) num e) below above tie
  rw [magnitudeBits, if_neg npos]
  simp only [unitExponent_eq npos dpos low high, unit, units]

/-- A quotient that is no less than a full significand has the unit of the
double it rounds to, and so has one in the lowest binade. -/
theorem unit_of_full {m : Nat} {e t : Int} {q : ℚ} (isParts : IsParts m e) (above : q ≤ m + 1 / 2)
    (full : 2 ^ 52 ≤ q ∨ e = -1074) (low : (2 : ℚ) ^ (t + 52) ≤ q * 2 ^ e)
    (high : q * 2 ^ e < (2 : ℚ) ^ (t + 53)) : max (-1074) t = e := by
  have small : (m : ℚ) + 1 ≤ 2 ^ 53 := by exact_mod_cast isParts.small
  have atMost := lt_of_le_units (n := 53) (by linarith) low
  obtain full | least := full
  · have atLeast := lt_of_units_lt full high
    have := isParts.low
    omega
  · omega

/-- Just below a binade the unit is half that of the double at its start. -/
theorem unit_below {e t : Int} {q : ℚ} (deep : -1074 < e) (below : 2 ^ 52 - 1 / 4 ≤ q)
    (under : q < 2 ^ 52) (low : (2 : ℚ) ^ (t + 52) ≤ q * 2 ^ e)
    (high : q * 2 ^ e < (2 : ℚ) ^ (t + 53)) : max (-1074) t = e - 1 := by
  have atMost := lt_of_le_units under low
  have atLeast := lt_of_units_lt (n := 51) (by linarith) high
  omega

/-- Only the double at the start of a binade has numbers below the binade in its
interval. -/
theorem first_of_under {m : Nat} {e : Int} {q : ℚ} (isParts : IsParts m e)
    (below : (m : ℚ) - reach m e / 4 ≤ q) (deep : -1074 < e) (under : q < 2 ^ 52) :
    m = 2 ^ 52 ∧ reach m e = 1 := by
  have lead : leading = 2 ^ 52 := rfl
  have first : m = 2 ^ 52 := by
    by_contra other
    have two : reach m e = 2 := by rw [reach, if_neg (by rw [lead]; tauto)]
    have more : (2 : ℚ) ^ 52 + 1 ≤ m := by
      have : 2 ^ 52 + 1 ≤ m := by
        have := isParts.full
        omega
      exact_mod_cast this
    rw [two] at below
    push_cast at below
    linarith
  exact ⟨first, by rw [reach, if_pos ⟨first.trans lead.symm, deep⟩]⟩

/-- Just below a binade a quotient rounds up to its start. -/
theorem magnitudeBits_below {num den : Nat} {e t : Int} {q : ℚ} (npos : num ≠ 0) (dpos : den ≠ 0)
    (hq : (num : ℚ) / den = q * 2 ^ e) (low : (2 : ℚ) ^ (t + 52) ≤ num / den)
    (high : (num : ℚ) / den < 2 ^ (t + 53)) (deep : -1074 < e) (top : e ≤ 971)
    (below : 2 ^ 52 - 1 / 4 ≤ q) (under : q < 2 ^ 52) :
    magnitudeBits num den = wordOf (2 ^ 52) e := by
  have lead : leading = 2 ^ 52 := rfl
  have unit := unit_below deep below under (hq ▸ low) (hq ▸ high)
  have finer : (num : ℚ) / den / 2 ^ (e - 1) = 2 * q := by
    rw [hq, zpow_sub₀ two_ne_zero, zpow_one]
    field_simp
  have bits := @magnitudeBits_of num den (2 ^ 53) t (e - 1) npos dpos low high unit
    (by rw [finer]; push_cast; linarith) (by rw [finer]; push_cast; linarith) (by norm_num)
  rw [bits, wordOf, lead]
  omega

/-- **Rounding.** Every quotient in the interval of a double is closed into the
word of that double. -/
theorem magnitudeBits_eq {m num den : Nat} {e : Int} (isParts : IsParts m e) (pos : m ≠ 0)
    (npos : num ≠ 0) (dpos : den ≠ 0) (near : (Basin.of m e).Contains ((num : ℚ) / den)) :
    magnitudeBits num den = wordOf m e := by
  have vpos : (0 : ℚ) < num / den := by positivity
  obtain ⟨q, hq⟩ := exists_units ((num : ℚ) / den) e
  obtain ⟨below, above, tie⟩ := (contains_iff pos).mp (hq ▸ near)
  obtain ⟨t', low, high⟩ := exists_mem_Ico_zpow vpos (one_lt_two (α := ℚ))
  obtain ⟨t, rfl⟩ : ∃ t, t' = t + 52 := ⟨t' - 52, by ring⟩
  rw [show t + 52 + 1 = t + 53 by ring] at high
  by_cases under : q < 2 ^ 52 ∧ -1074 < e
  · obtain ⟨under, deep⟩ := under
    obtain ⟨rfl, one⟩ := first_of_under isParts below deep under
    rw [one] at below
    push_cast at below
    exact magnitudeBits_below npos dpos hq low high deep isParts.high below under
  · have full : 2 ^ 52 ≤ q ∨ e = -1074 := by
      rw [not_and_or, not_lt] at under
      exact under.imp_right fun deep => le_antisymm (not_lt.mp deep) isParts.low
    have unit := unit_of_full isParts above full (hq ▸ low) (hq ▸ high)
    have ratio : (num : ℚ) / den / 2 ^ e = q := by
      rw [hq, mul_div_cancel_right₀ _ (zpow_ne_zero e two_ne_zero)]
    have half : (reach m e : ℚ) ≤ 2 := by exact_mod_cast reach_le m e
    have ends (odd : m % 2 = 1) : (m : ℚ) - 1 / 2 ≠ q ∧ q ≠ m + 1 / 2 := by
      refine ⟨?_, (tie odd).2⟩
      intro same
      exact (tie odd).1 (by linarith)
    have bits := @magnitudeBits_of num den m t e npos dpos low high unit (by rw [ratio]; linarith)
      (by rw [ratio]; exact above) (by rw [ratio]; exact ends)
    have lead : leading = 2 ^ 52 := rfl
    have := isParts.small
    have := isParts.low
    have := isParts.high
    rw [bits, wordOf, lead]
    omega

/-- A word with the right bits is the double. -/
theorem nearest_eq {x : Float} {negative : Bool} {m num den : Nat} {e : Int}
    (word : x.toBits.toNat = wordOf m e + if negative then 1 <<< 63 else 0)
    (bits : magnitudeBits num den = wordOf m e) : nearest negative num den = x := by
  rw [nearest, bits, ← word, UInt64.ofNat_toNat, Float.ofBits_toBits]

/-! ## Decimal fractions -/

/-- The digits of a number bound it. -/
theorem digits_bounds {n : Nat} (pos : n ≠ 0) :
    10 ^ ((Nat.toDigits 10 n).length - 1) ≤ n ∧ n < 10 ^ (Nat.toDigits 10 n).length := by
  have count : 0 < (Nat.toDigits 10 n).length := List.length_pos_iff.mpr Nat.toDigits_ne_nil
  refine ⟨?_, (Nat.length_toDigits_le_iff (by decide) count).mp (le_refl _)⟩
  by_contra less
  by_cases one : (Nat.toDigits 10 n).length = 1
  · rw [one] at less
    omega
  · have := (Nat.length_toDigits_le_iff (n := n) (k := (Nat.toDigits 10 n).length - 1)
      (by decide : 1 < 10) (by omega)).mpr (by omega)
    omega

theorem two_pow_lt_ten_pow : (2 : ℚ) ^ 1075 < 10 ^ 400 := by
  calc
    (2 : ℚ) ^ 1075 < 2 ^ (3 * 400) := by gcongr <;> norm_num
    _ = (2 ^ 3) ^ 400 := pow_mul _ _ _
    _ ≤ 10 ^ 400 := by gcongr; norm_num

/-- The interval of a double that is not zero keeps away from zero, and ends. -/
theorem bounds_of_contains {m : Nat} {e : Int} (isParts : IsParts m e) (pos : m ≠ 0) {v : ℚ}
    (near : (Basin.of m e).Contains v) : ((2 : ℚ) ^ 1075)⁻¹ ≤ v ∧ v < 2 ^ 1075 := by
  obtain ⟨q, rfl⟩ := exists_units v e
  obtain ⟨below, above, -⟩ := (contains_iff pos).mp near
  have half : (reach m e : ℚ) ≤ 2 := by exact_mod_cast reach_le m e
  have one : (1 : ℚ) ≤ m := by exact_mod_cast Nat.one_le_iff_ne_zero.mpr pos
  have small : (m : ℚ) + 1 ≤ 2 ^ 53 := by exact_mod_cast isParts.small
  constructor
  · calc
      ((2 : ℚ) ^ 1075)⁻¹ = 2 ^ (-1075 : Int) := by rw [zpow_neg]; rfl
      _ ≤ 2 ^ (e - 1) := by
        refine zpow_le_zpow_right₀ one_le_two ?_
        have := isParts.low
        omega
      _ = 1 / 2 * 2 ^ e := by rw [zpow_sub₀ two_ne_zero, zpow_one]; ring
      _ ≤ q * 2 ^ e := by
        gcongr
        linarith
  · calc
      q * 2 ^ e < 2 ^ 53 * 2 ^ e := by
        gcongr
        linarith
      _ = 2 ^ (e + (53 : Nat)) := (two_zpow_add e 53).symm
      _ ≤ 2 ^ (1075 : Int) := by
        refine zpow_le_zpow_right₀ one_le_two ?_
        have := isParts.high
        omega
      _ = 2 ^ 1075 := rfl

/-- Where the leading digit of a decimal fraction stands, if its value is that of
a double. -/
theorem order_bounds {d : Nat} {k : Int} (some_digit : d ≠ 0)
    (above : ((2 : ℚ) ^ 1075)⁻¹ ≤ d * 10 ^ k) (below : d * (10 : ℚ) ^ k < 2 ^ 1075) :
    -400 ≤ k + (Nat.toDigits 10 d).length ∧ k + (Nat.toDigits 10 d).length ≤ 400 := by
  have ten : (10 : ℚ) ≠ 0 := by norm_num
  have count : 0 < (Nat.toDigits 10 d).length := List.length_pos_iff.mpr Nat.toDigits_ne_nil
  obtain ⟨low, high⟩ := digits_bounds some_digit
  generalize (Nat.toDigits 10 d).length = size at *
  have lowQ : (10 : ℚ) ^ (size - 1) ≤ d := by exact_mod_cast low
  have highQ : (d : ℚ) < 10 ^ size := by exact_mod_cast high
  constructor
  · by_contra small
    apply absurd above (not_le.mpr _)
    calc
      d * (10 : ℚ) ^ k < 10 ^ size * 10 ^ k := by gcongr
      _ = 10 ^ ((size : Int) + k) := by rw [zpow_add₀ ten, zpow_natCast]
      _ ≤ 10 ^ (-400 : Int) := zpow_le_zpow_right₀ (by norm_num) (by omega)
      _ = (10 ^ 400)⁻¹ := by rw [zpow_neg]; rfl
      _ < (2 ^ 1075)⁻¹ := by
        gcongr
        exact two_pow_lt_ten_pow
  · by_contra large
    apply absurd (lt_trans below two_pow_lt_ten_pow) (not_lt.mpr _)
    calc
      (10 : ℚ) ^ 400 = 10 ^ (400 : Int) := rfl
      _ ≤ 10 ^ (((size - 1 : Nat) : Int) + k) := zpow_le_zpow_right₀ (by norm_num) (by omega)
      _ = 10 ^ (size - 1) * 10 ^ k := by rw [zpow_add₀ ten, zpow_natCast]
      _ ≤ d * 10 ^ k := by gcongr

/-- **Reading a decimal fraction.** Every decimal fraction in the interval of a
double is read as that double. -/
theorem ofDecimal?_eq_some {x : Float} (finite : x.isFinite = true) {negative : Bool} {m d : Nat}
    {e k : Int} (isParts : IsParts m e)
    (word : x.toBits.toNat = wordOf m e + if negative then 1 <<< 63 else 0) (pos : m ≠ 0)
    (near : (Basin.of m e).Contains (d * 10 ^ k)) : ofDecimal? negative d k = some x := by
  obtain ⟨above, below⟩ := bounds_of_contains isParts pos near
  have some_digit : d ≠ 0 := by
    rintro rfl
    rw [Nat.cast_zero, zero_mul] at above
    exact absurd above (not_le.mpr (by positivity))
  obtain ⟨notSmall, notLarge⟩ := order_bounds some_digit above below
  have value : ((d * Nat.pow 10 k.toNat : Nat) : ℚ) / (Nat.pow 10 (-k).toNat : Nat) =
      d * 10 ^ k := by
    rw [Nat.pow_eq, Nat.pow_eq, zpow_eq_div]
    push_cast
    ring
  have bits : magnitudeBits (d * Nat.pow 10 k.toNat) (Nat.pow 10 (-k).toNat) = wordOf m e := by
    apply magnitudeBits_eq isParts pos
    · rw [Nat.pow_eq]
      positivity
    · rw [Nat.pow_eq]
      positivity
    · rw [value]
      exact near
  unfold ofDecimal?
  simp only
  rw [if_neg some_digit, if_neg (not_lt.mpr notLarge), if_neg (not_lt.mpr notSmall),
    nearest_eq word bits, if_pos finite]

end AttackMap.Binary64
