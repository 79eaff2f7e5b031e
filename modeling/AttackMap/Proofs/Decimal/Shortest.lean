import AttackMap.Decimal.Numeral
import AttackMap.Proofs.Binary64.Rounding

/-!
# The shortest decimal reads back

The shortest decimal of a double is searched for in the interval of the
double, so it rounds to the double if the search finds anything. It does: on
the grid of seventeen digits the step is less than the interval reaches on
either side, and the nearest point of the grid is no further away than half a
step (`holds_near`). That the grid is that fine rests on the leading power,
which is guessed from the logarithm of two and never too high
(`ten_zpow_leadingPower_le`).

What is then written are the digits without the zeros at their end, with the
point wherever it is put; none of that changes the number. So a finite double
is written as a numeral that reads back as the double
(`Numeral.exists_ofFloat`).
-/

namespace AttackMap.Decimal

open Binary64

/-! ## The interval -/

theorem zpow_mul_toNat {b : ℚ} (ne : b ≠ 0) (e : Int) : b ^ e * b ^ (-e).toNat = b ^ e.toNat := by
  rw [zpow_eq_div, div_mul_cancel₀ _ (pow_ne_zero _ ne)]

/-- The test on naturals is the one on numbers. -/
theorem Basin.holds_iff {b : Basin} {d : Nat} {k : Int} :
    b.holds d k = true ↔ b.Contains (d * 10 ^ k) := by
  -- both sides are multiplied by the powers that would divide them
  obtain ⟨p, hp⟩ : ∃ p : ℚ, p = 10 ^ (-k).toNat * 2 ^ (-b.exponent).toNat := ⟨_, rfl⟩
  have pos : 0 < p := by rw [hp]; positivity
  have left : (((d * Nat.pow 10 k.toNat) <<< (-b.exponent).toNat : Nat) : ℚ) =
      d * 10 ^ k * p := by
    rw [Nat.shiftLeft_eq, Nat.pow_eq, hp]
    push_cast
    rw [← zpow_mul_toNat (by norm_num : (10 : ℚ) ≠ 0) k]
    ring
  have scale (x : Nat) : ((x * (Nat.pow 10 (-k).toNat <<< b.exponent.toNat) : Nat) : ℚ) =
      x * 2 ^ b.exponent * p := by
    rw [Nat.shiftLeft_eq, Nat.pow_eq, hp]
    push_cast
    rw [← zpow_mul_toNat (by norm_num : (2 : ℚ) ≠ 0) b.exponent]
    ring
  have le_left (x : Nat) : x * (Nat.pow 10 (-k).toNat <<< b.exponent.toNat) ≤
      (d * Nat.pow 10 k.toNat) <<< (-b.exponent).toNat ↔ x * (2 : ℚ) ^ b.exponent ≤ d * 10 ^ k := by
    rw [← Nat.cast_le (α := ℚ), left, scale, mul_le_mul_iff_left₀ pos]
  have left_le (x : Nat) : (d * Nat.pow 10 k.toNat) <<< (-b.exponent).toNat ≤
      x * (Nat.pow 10 (-k).toNat <<< b.exponent.toNat) ↔ d * 10 ^ k ≤ x * (2 : ℚ) ^ b.exponent := by
    rw [← Nat.cast_le (α := ℚ), left, scale, mul_le_mul_iff_left₀ pos]
  unfold holds
  simp only
  cases closed : b.closed with
  | true =>
    simp only [if_true, decide_eq_true_eq, le_left, left_le]
    constructor
    · rintro ⟨low, high⟩
      refine ⟨low, high, ?_⟩
      intro ends
      rw [closed] at ends
      cases ends
    · intro inside
      exact ⟨inside.low, inside.high⟩
  | false =>
    simp only [Bool.false_eq_true, if_false, decide_eq_true_eq, ← Nat.not_le, le_left, left_le,
      not_le]
    constructor
    · rintro ⟨low, high⟩
      exact ⟨low.le, high.le, fun _ => ⟨low.ne, high.ne⟩⟩
    · rintro ⟨low, high, ends⟩
      exact ⟨lt_of_le_of_ne low (ends closed).1, lt_of_le_of_ne high (ends closed).2⟩

/-! ## Digits -/

/-- The value of a decimal fraction. -/
def Scientific.value (s : Scientific) : ℚ := s.digits * 10 ^ s.exponent

theorem Scientific.value_reduce (fuel : Nat) (s : Scientific) :
    (s.reduce fuel).value = s.value := by
  fun_induction reduce fuel s with
  | case1 => rfl
  | case2 fuel s trailing ih =>
    rw [ih, value, value, zpow_add_one₀ (by norm_num)]
    have digits : (s.digits : ℚ) = s.digits / 10 * 10 := by ring
    have exact : s.digits / 10 * 10 = s.digits := by omega
    have tenth : ((s.digits / 10 : Nat) : ℚ) * 10 = s.digits := by exact_mod_cast exact
    rw [← tenth]
    ring
  | case3 => rfl

/-! ## The leading power -/

/-- Three tenths and a little more is the logarithm of two. -/
theorem ten_pow_bounds : 2 ^ 100000 ≤ 10 ^ 30103 ∧ 10 ^ 30103 ≤ 2 ^ (100000 + 1) := by
  decide +kernel

/-- What a bound by one power more comes to when it is raised to a power. -/
theorem zpow_le_zpow_mul {a : ℚ} {n : Nat} (low : 2 ^ n ≤ a) (high : a ≤ 2 ^ (n + 1)) {d : Int}
    (small : d ≤ n) : a ^ d ≤ (2 ^ n) ^ d * 2 ^ n := by
  obtain ⟨k, rfl | rfl⟩ := d.eq_nat_or_neg
  · have few : k ≤ n := by omega
    have pos : (0 : ℚ) ≤ a := le_trans (by positivity) low
    calc
      a ^ (k : Int) = a ^ k := zpow_natCast _ _
      _ ≤ (2 ^ (n + 1)) ^ k := by gcongr
      _ = (2 ^ n) ^ k * 2 ^ k := by rw [pow_succ, mul_pow]
      _ ≤ (2 ^ n) ^ k * 2 ^ n := by gcongr; norm_num
      _ = (2 ^ n) ^ (k : Int) * 2 ^ n := by rw [zpow_natCast]
  · have one : (1 : ℚ) ≤ 2 ^ n := one_le_pow₀ one_le_two
    calc
      a ^ (-(k : Int)) = (a ^ k)⁻¹ := by rw [zpow_neg, zpow_natCast]
      _ ≤ ((2 ^ n) ^ k)⁻¹ := by gcongr
      _ = (2 ^ n) ^ (-(k : Int)) := by rw [zpow_neg, zpow_natCast]
      _ ≤ (2 ^ n) ^ (-(k : Int)) * 2 ^ n := le_mul_of_one_le_right (by positivity) one

/-- Where `r / n` is the logarithm of two, from above and nearly, a power of two
is above the power of ten that it leads to, less one. -/
theorem ten_zpow_le_two_zpow {n r : Nat} (npos : n ≠ 0) (below : 2 ^ n ≤ 10 ^ r)
    (above : 10 ^ r ≤ 2 ^ (n + 1)) {d g : Int} (guess : g * n ≤ d * r) (small : d ≤ n) :
    (10 : ℚ) ^ (g - 1) ≤ 2 ^ (d - 1) := by
  have belowQ : (2 : ℚ) ^ n ≤ 10 ^ r := by exact_mod_cast below
  have aboveQ : (10 : ℚ) ^ r ≤ 2 ^ (n + 1) := by exact_mod_cast above
  have power := zpow_le_zpow_mul belowQ aboveQ small
  have four : (2 : ℚ) ^ n * 2 ^ n ≤ 10 ^ n := by
    rw [← mul_pow]
    gcongr
    norm_num
  apply le_of_pow_le_pow_left₀ npos (by positivity)
  calc
    ((10 : ℚ) ^ (g - 1)) ^ n = 10 ^ (g * n) / 10 ^ n := by
      rw [← zpow_natCast, ← zpow_mul, sub_mul, zpow_sub₀ (by norm_num), one_mul, zpow_natCast]
    _ ≤ 10 ^ (d * r) / 10 ^ n := by
      gcongr
      norm_num
    _ = (10 ^ r) ^ d / 10 ^ n := by rw [← zpow_natCast 10 r, ← zpow_mul, mul_comm d]
    _ ≤ (2 ^ n) ^ d * 2 ^ n / (2 ^ n * 2 ^ n) := by gcongr
    _ = (2 ^ n) ^ d / 2 ^ n := by field_simp
    _ = (2 ^ (d - 1)) ^ n := by
      rw [← zpow_natCast (2 ^ (d - 1)), ← zpow_mul, sub_mul, zpow_sub₀ two_ne_zero, one_mul,
        zpow_natCast, ← zpow_natCast 2 n, ← zpow_mul, mul_comm d]

/-- The test on naturals is the one on numbers. -/
theorem ten_zpow_le_iff {num den : Nat} (dpos : den ≠ 0) (t : Int) :
    den * Nat.pow 10 t.toNat ≤ num * Nat.pow 10 (-t).toNat ↔ (10 : ℚ) ^ t ≤ num / den := by
  have den_pos : (0 : ℚ) < den := by positivity
  have pos : (0 : ℚ) < 10 ^ (-t).toNat := by positivity
  rw [Nat.pow_eq, Nat.pow_eq, ← Nat.cast_le (α := ℚ), le_div_iff₀ den_pos]
  push_cast
  rw [← zpow_mul_toNat (by norm_num : (10 : ℚ) ≠ 0) t, mul_comm (den : ℚ), mul_right_comm,
    mul_le_mul_iff_left₀ pos]

/-- The leading power is not too high. -/
theorem ten_zpow_leadingPower_le {num den : Nat} (npos : num ≠ 0) (dpos : den ≠ 0)
    (small : (num.log2 : Int) - den.log2 ≤ 100000) :
    (10 : ℚ) ^ leadingPower num den ≤ num / den := by
  unfold leadingPower
  simp only [decide_eq_true_eq, ten_zpow_le_iff dpos]
  split
  · assumption
  · split
    · assumption
    · have guess : (((num.log2 : Int) - den.log2) * 30103).fdiv 100000 * 100000 ≤
          ((num.log2 : Int) - den.log2) * 30103 := by
        rw [Int.fdiv_eq_ediv_of_nonneg _ (by decide)]
        exact Int.ediv_mul_le _ (by decide)
      calc
        (10 : ℚ) ^ ((((num.log2 : Int) - den.log2) * 30103).fdiv 100000 - 1)
            ≤ 2 ^ ((num.log2 : Int) - den.log2 - 1) :=
          ten_zpow_le_two_zpow (by decide) ten_pow_bounds.1 ten_pow_bounds.2 guess small
        _ ≤ num / den := (two_zpow_lt_div npos dpos).le

/-! ## The search -/

/-- The first neighbour is the nearest point of its grid. -/
theorem near_bounds {num den : Nat} (dpos : den ≠ 0) (k : Int) :
    ((neighbours num den k).1 : ℚ) - 1 / 2 ≤ num / den / 10 ^ k ∧
      (num : ℚ) / den / 10 ^ k ≤ (neighbours num den k).1 + 1 / 2 := by
  obtain ⟨n, hn⟩ : ∃ n, n = num * Nat.pow 10 (-k).toNat := ⟨_, rfl⟩
  obtain ⟨d, hd⟩ : ∃ d, d = den * Nat.pow 10 k.toNat := ⟨_, rfl⟩
  have pos : 0 < d := by rw [hd, Nat.pow_eq]; positivity
  have ratio : (n : ℚ) / d = num / den / 10 ^ k := by
    rw [hn, hd, Nat.pow_eq, Nat.pow_eq, zpow_eq_div]
    push_cast
    field_simp
  have posQ : (0 : ℚ) < d := by exact_mod_cast pos
  have split := Nat.div_add_mod n d
  have rest := Nat.mod_lt n pos
  rw [← ratio, le_div_iff₀ posQ, div_le_iff₀ posQ]
  unfold neighbours
  simp only [← hn, ← hd]
  have splitQ : (n : ℚ) = d * (n / d : Nat) + (n % d : Nat) := by exact_mod_cast split.symm
  have restQ : ((n % d : Nat) : ℚ) < d := by exact_mod_cast rest
  have atLeast : (0 : ℚ) ≤ (n % d : Nat) := by positivity
  split
  · next low =>
    have half : 2 * (n % d) ≤ d := by omega
    have halfQ : 2 * ((n % d : Nat) : ℚ) ≤ d := by exact_mod_cast half
    simp only
    constructor <;> linarith
  · next high =>
    have half : d ≤ 2 * (n % d) := by omega
    have halfQ : (d : ℚ) ≤ 2 * ((n % d : Nat) : ℚ) := by exact_mod_cast half
    push_cast
    constructor <;> linarith

/-- On the grid of seventeen digits the nearest point is in the interval. -/
theorem holds_near {m num den : Nat} {e top : Int} (isParts : IsParts m e) (pos : m ≠ 0)
    (dpos : den ≠ 0) (exact : (num : ℚ) / den = m * 2 ^ e) (lead : (10 : ℚ) ^ top ≤ num / den) :
    (Basin.of m e).holds (neighbours num den (top - 16)).1 (top - 16) = true := by
  have unitPos : (0 : ℚ) < 2 ^ e := by positivity
  have gridPos : (0 : ℚ) < 10 ^ (top - 16) := by positivity
  obtain ⟨u, hu⟩ := exists_units ((10 : ℚ) ^ (top - 16)) e
  have upos : 0 < u := pos_of_mul_pos_left (hu ▸ gridPos) unitPos.le
  -- a step of the grid is a small part of the significand
  have step : u * 10 ^ 16 ≤ m := by
    refine le_of_mul_le_mul_right ?_ unitPos
    calc
      u * 10 ^ 16 * 2 ^ e = 10 ^ (top - 16) * 10 ^ (16 : Int) := by
        rw [hu, mul_right_comm]
        rfl
      _ = 10 ^ top := by rw [← zpow_add₀ (by norm_num), sub_add_cancel]
      _ ≤ m * 2 ^ e := lead.trans exact.le
  have short : 2 * u < reach m e := by
    have small : (m : ℚ) ≤ 2 ^ 53 := by exact_mod_cast isParts.small.le
    unfold reach
    split
    · next first =>
      have least : (m : ℚ) = 2 ^ 52 := by exact_mod_cast first.1
      push_cast
      linarith
    · push_cast
      linarith
  have half : (reach m e : ℚ) ≤ 2 := by exact_mod_cast reach_le m e
  obtain ⟨below, above⟩ := @near_bounds num den dpos (top - 16)
  have ratio : (num : ℚ) / den / 10 ^ (top - 16) = m / u := by
    rw [exact, hu]
    field_simp
  rw [ratio, le_div_iff₀ upos] at below
  rw [ratio, div_le_iff₀ upos] at above
  rw [Basin.holds_iff, hu, ← mul_assoc, contains_iff pos]
  have low : (m : ℚ) - reach m e / 4 < (neighbours num den (top - 16)).1 * u := by linarith
  have high : (neighbours num den (top - 16)).1 * u < m + 1 / 2 := by linarith
  exact ⟨low.le, high.le, fun _ => ⟨low.ne, high.ne⟩⟩

theorem holds_search {b : Basin} {num den : Nat} {top : Int}
    (last : b.holds (neighbours num den (top - 16)).1 (top - 16) = true) {fuel count : Nat}
    (pos : fuel ≠ 0) (total : fuel + count = 18) :
    b.holds (search b num den top fuel count).digits
      (search b num den top fuel count).exponent = true := by
  induction fuel generalizing count with
  | zero => exact absurd rfl pos
  | succ fuel ih =>
    rw [search]
    simp only
    split
    · assumption
    · next near =>
      split
      · assumption
      · apply ih _ (by omega)
        rintro rfl
        have grid : top - (count : Int) + 1 = top - 16 := by omega
        rw [grid] at near
        exact near last

/-- **The shortest decimal** of a double is in the interval of the double. -/
theorem shortest_contains {m : Nat} {e : Int} (isParts : IsParts m e) (pos : m ≠ 0) :
    (Basin.of m e).Contains (shortest m e).value := by
  have npos : m <<< e.toNat ≠ 0 := by
    rw [Nat.shiftLeft_eq]
    positivity
  have dpos : 1 <<< (-e).toNat ≠ 0 := by
    rw [Nat.shiftLeft_eq]
    positivity
  have exact : ((m <<< e.toNat : Nat) : ℚ) / (1 <<< (-e).toNat : Nat) = m * 2 ^ e := by
    rw [Nat.shiftLeft_eq, Nat.shiftLeft_eq, zpow_eq_div]
    push_cast
    ring
  have small : ((m <<< e.toNat).log2 : Int) - (1 <<< (-e).toNat).log2 ≤ 100000 := by
    have high : m <<< e.toNat < 2 ^ (53 + e.toNat) := by
      rw [Nat.shiftLeft_eq, Nat.pow_add]
      exact Nat.mul_lt_mul_of_pos_right isParts.small (Nat.two_pow_pos _)
    have := (Nat.log2_lt npos).mpr high
    have := isParts.high
    omega
  have last := holds_near isParts pos dpos exact (ten_zpow_leadingPower_le npos dpos small)
  rw [shortest, if_neg pos]
  simp only
  rw [Scientific.value_reduce, Scientific.value, ← Basin.holds_iff]
  exact holds_search last (by decide) rfl

end AttackMap.Decimal

namespace AttackMap.Numeral

open Binary64 Decimal

/-- A decimal fraction is written as a numeral of the same value. -/
theorem value_ofScientific (negative : Bool) (s : Scientific) :
    ((ofScientific negative s).significand : ℚ) *
      10 ^ ((ofScientific negative s).exponent.getD 0 - (ofScientific negative s).places) =
        s.value := by
  have count : (Text.decimal s.digits).length ≠ 0 :=
    fun none => Nat.toDigits_ne_nil (List.length_eq_zero_iff.mp none)
  unfold ofScientific
  simp only
  split
  · obtain ⟨places, hp⟩ : ∃ places, places = max 1 (-s.exponent).toNat := ⟨_, rfl⟩
    have shift : (((places : Int) + s.exponent).toNat : Int) + (0 - places) = s.exponent := by omega
    simp only [← hp, Option.getD_none, Nat.pow_eq]
    push_cast
    rw [mul_assoc, ← zpow_natCast, ← zpow_add₀ (by norm_num), shift, Scientific.value]
  · have shift : s.exponent + ((Text.decimal s.digits).length : Int) - 1 -
        ((Text.decimal s.digits).length - 1 : Nat) = s.exponent := by omega
    simp only [Option.getD_some, shift, Scientific.value]

/-- **Reading a double back.** A finite double is written as a numeral that is
read as that double. -/
theorem exists_ofFloat {x : Float} (finite : x.isFinite = true) :
    ∃ n, ofFloat? x = some n ∧ n.toFloat? = some x := by
  obtain ⟨negative, m, e, opened, isParts, word⟩ := exists_parts finite
  refine ⟨ofScientific negative (shortest m e), by rw [ofFloat?, opened], ?_⟩
  have sign : (ofScientific negative (shortest m e)).negative = negative := by
    unfold ofScientific
    simp only
    split <;> rfl
  rw [toFloat?, sign]
  by_cases zero : m = 0
  · subst zero
    have least : e = -1074 := by
      obtain full | least := isParts.full
      · omega
      · exact least
    subst least
    have nothing : (ofScientific negative (shortest 0 (-1074))).significand = 0 := rfl
    rw [nothing, ofDecimal?]
    simp only [if_true]
    rw [nearest_eq word rfl]
  · refine ofDecimal?_eq_some finite isParts word zero ?_
    rw [value_ofScientific]
    exact shortest_contains isParts zero

end AttackMap.Numeral
