import AttackMap.Text.Digits
import Mathlib.Algebra.Group.Nat.Defs
import Mathlib.Data.List.Induction

/-!
# Digits read back

The digits of a number in a base of at most sixteen spell that number
(`number?_toDigits`), and they are as many as the number is large.
-/

namespace AttackMap.Text

/-! ## Decimal digits -/

theorem decimalDigit?_of_isDigit {c : Char} (digit : c.isDigit = true) :
    decimalDigit? c = some (c.toNat - '0'.toNat) := by
  obtain ⟨low, high⟩ := Char.isDigit_iff_toNat.mp digit
  exact if_pos ⟨low, high⟩

theorem isDigit_of_mem_decimal {n : Nat} {c : Char} (mem : c ∈ decimal n) : c.isDigit = true :=
  Nat.isDigit_of_mem_toDigits (by decide) (by decide) mem

theorem isSome_decimalDigit?_of_mem {n : Nat} {c : Char} (mem : c ∈ decimal n) :
    (decimalDigit? c).isSome = true := by
  rw [decimalDigit?_of_isDigit (isDigit_of_mem_decimal mem)]
  rfl

/-! ## Any base -/

theorem hexDigit?_digitChar : ∀ d < 16, hexDigit? d.digitChar = some d := by decide

theorem number?_append_singleton (base : Nat) (cs : List Char) (c : Char) :
    number? base (cs ++ [c]) = (number? base cs).bind fun n =>
      (hexDigit? c).bind fun d => if d < base then some (n * base + d) else none := by
  rw [number?, List.foldlM_append]
  simp [number?, List.foldlM_cons]

/-- The digits of a number spell it. -/
theorem number?_toDigits {base : Nat} (two : 1 < base) (sixteen : base ≤ 16) (n : Nat) :
    number? base (Nat.toDigits base n) = some n := by
  induction n using Nat.strongRecOn with
  | ind n ih =>
    have last (d : Nat) (low : d < base) : hexDigit? d.digitChar = some d :=
      hexDigit?_digitChar d (by omega)
    by_cases small : n < base
    · rw [Nat.toDigits_of_lt_base small]
      have one := number?_append_singleton base [] n.digitChar
      rw [List.nil_append, last n small] at one
      simpa [number?, small] using one
    · have rest : n / base < n := Nat.div_lt_self (by omega) two
      have low : n % base < base := Nat.mod_lt _ (by omega)
      rw [Nat.toDigits_of_base_le two (by omega), number?_append_singleton, ih _ rest, last _ low]
      simp [low, Nat.div_add_mod']

theorem number?_decimal (n : Nat) : number? 10 (decimal n) = some n :=
  number?_toDigits (by decide) (by decide) n

/-- The characters of digits in base sixteen. -/
theorem mem_of_mem_toDigits {n : Nat} {c : Char} (mem : c ∈ Nat.toDigits 16 n) :
    ∃ d < 16, c = d.digitChar := by
  induction n using Nat.strongRecOn with
  | ind n ih =>
    by_cases small : n < 16
    · rw [Nat.toDigits_of_lt_base small] at mem
      exact ⟨n, small, List.mem_singleton.mp mem⟩
    · rw [Nat.toDigits_of_base_le (by decide) (by omega), List.mem_append] at mem
      rcases mem with mem | mem
      · exact ih _ (by omega) mem
      · exact ⟨n % 16, Nat.mod_lt _ (by decide), List.mem_singleton.mp mem⟩

/-- Digits spell no more than their number allows. -/
theorem lt_of_number? {base n : Nat} {cs : List Char} (h : number? base cs = some n) :
    n < base ^ cs.length := by
  induction cs using List.reverseRecOn generalizing n with
  | nil =>
    cases Option.some.inj h
    exact Nat.lt_succ_self 0
  | append_singleton cs c ih =>
    rw [number?_append_singleton] at h
    obtain ⟨m, front, h⟩ := Option.bind_eq_some_iff.mp h
    obtain ⟨d, -, h⟩ := Option.bind_eq_some_iff.mp h
    split at h
    · next small =>
      cases Option.some.inj h
      have more : (m + 1) * base ≤ base ^ cs.length * base := Nat.mul_le_mul_right _ (ih front)
      rw [List.length_append, List.length_singleton, Nat.pow_succ]
      rw [Nat.add_mul] at more
      omega
    · cases h

end AttackMap.Text
