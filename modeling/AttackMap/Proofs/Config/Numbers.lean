import AttackMap.Config
import AttackMap.Proofs.Text.Digits

/-!
# Numbers of milliseconds

A text is a number of milliseconds just if it is digits, perhaps after a plus
sign, and their number fits in a word (`millis_eq_ok_iff`). Reading stops at
the first digit that leads beyond a word; no digit behind it could lead back.
-/

namespace AttackMap.Config

/-- A text spells a number that fits in a word: digits, perhaps after a plus
sign. -/
def SpellsWord (text : String) (n : Nat) : Prop :=
  ∃ digits, (text.toList = digits ∨ text.toList = '+' :: digits) ∧ digits ≠ [] ∧
    (∀ c ∈ digits, c.isDigit = true) ∧ n = Nat.ofDigitChars 10 digits 0 ∧ n < 2 ^ 64

/-- One digit more. -/
def digitAfter (n : Nat) (c : Char) : Except NumberFault Nat :=
  match Text.decimalDigit? c with
  | none => .error .notDigit
  | some d => if 10 * n + d ≤ Tally.greatest then .ok (10 * n + d) else .error .tooLarge

theorem isDigit_of_decimalDigit? {c : Char} {d : Nat} (h : Text.decimalDigit? c = some d) :
    c.isDigit = true ∧ d = c.toNat - '0'.toNat := by
  unfold Text.decimalDigit? at h
  split at h
  · next within =>
    exact ⟨Char.isDigit_iff_toNat.mpr within, (Option.some.inj h).symm⟩
  · cases h

theorem le_ofDigitChars (digits : List Char) (n : Nat) : n ≤ Nat.ofDigitChars 10 digits n := by
  induction digits generalizing n with
  | nil => exact Nat.le_refl _
  | cons c digits ih =>
    rw [Nat.ofDigitChars_cons]
    exact Nat.le_trans (by omega) (ih _)

/-- Digits read one after another, as long as their number fits. -/
theorem foldlM_digitAfter {digits : List Char} {n m : Nat} (fits : n ≤ Tally.greatest) :
    digits.foldlM digitAfter n = .ok m ↔ (∀ c ∈ digits, c.isDigit = true) ∧
      m = Nat.ofDigitChars 10 digits n ∧ m ≤ Tally.greatest := by
  induction digits generalizing n with
  | nil =>
    constructor
    · intro h
      cases h
      exact ⟨List.forall_mem_nil _, rfl, fits⟩
    · rintro ⟨-, rfl, -⟩
      rfl
  | cons c digits ih =>
    rw [List.foldlM_cons, Nat.ofDigitChars_cons, List.forall_mem_cons]
    cases digit : Text.decimalDigit? c with
    | none =>
      have other : ¬ c.isDigit = true := fun is => by
        rw [Text.decimalDigit?_of_isDigit is] at digit
        cases digit
      have one : digitAfter n c = .error .notDigit := by simp only [digitAfter, digit]
      rw [one]
      exact iff_of_false nofun fun h => other h.1.1
    | some d =>
      obtain ⟨is, rfl⟩ := isDigit_of_decimalDigit? digit
      by_cases small : 10 * n + (c.toNat - '0'.toNat) ≤ Tally.greatest
      · have one : digitAfter n c = .ok (10 * n + (c.toNat - '0'.toNat)) := by
          simp only [digitAfter, digit, if_pos small]
        rw [one]
        simp only [is, true_and]
        exact ih small
      · have one : digitAfter n c = .error .tooLarge := by
          simp only [digitAfter, digit, if_neg small]
        rw [one]
        refine iff_of_false nofun ?_
        rintro ⟨-, rfl, most⟩
        exact small (Nat.le_trans (le_ofDigitChars digits _) most)

/-- What stands behind a plus sign, if there is one. -/
def unsigned : List Char → List Char
  | '+' :: r => r
  | cs => cs

theorem unsigned_eq_iff {cs digits : List Char} (all : ∀ c ∈ digits, c.isDigit = true) :
    unsigned cs = digits ↔ cs = digits ∨ cs = '+' :: digits := by
  unfold unsigned
  split
  · next r =>
    constructor
    · rintro rfl
      exact .inr rfl
    · rintro (rfl | same)
      · cases all '+' List.mem_cons_self
      · exact (List.cons.inj same).2
  · next other => exact ⟨.inl, fun same => same.resolve_right (other digits)⟩

theorem millis_eq (text : String) :
    millis text = if (unsigned text.toList).isEmpty then .error .notDigit
      else UInt64.ofNat <$> (unsigned text.toList).foldlM digitAfter 0 := by
  rw [millis]
  change (if (unsigned text.toList).isEmpty then _ else _) = _
  split
  · rfl
  · exact bind_pure_comp ..

/-- A word and the number it was made from. -/
theorem toNat_ofNat_of_fits {n : Nat} (fits : n ≤ Tally.greatest) : (UInt64.ofNat n).toNat = n :=
  UInt64.toNat_ofNat_of_lt' (Nat.lt_succ_of_le fits)

/-- What is read as a number of milliseconds. -/
theorem millis_eq_ok_iff {text : String} {w : UInt64} :
    millis text = .ok w ↔ SpellsWord text w.toNat := by
  rw [millis_eq]
  constructor
  · intro read
    split at read
    · cases read
    · next filled =>
      cases run : (unsigned text.toList).foldlM digitAfter 0 with
      | error fault =>
        rw [run] at read
        cases read
      | ok n =>
        rw [run] at read
        cases read
        obtain ⟨all, value, fits⟩ := (foldlM_digitAfter (Nat.zero_le _)).mp run
        rw [List.isEmpty_iff] at filled
        refine ⟨_, (unsigned_eq_iff all).mp rfl, filled, all, ?_, UInt64.toNat_lt _⟩
        rw [toNat_ofNat_of_fits fits, value]
  · rintro ⟨digits, form, filled, all, value, small⟩
    rw [(unsigned_eq_iff all).mpr form]
    have run := (foldlM_digitAfter (Nat.zero_le _)).mpr ⟨all, value, Nat.le_of_lt_succ small⟩
    rw [if_neg (by simpa using filled), run]
    exact congrArg Except.ok (UInt64.ofNat_toNat)

end AttackMap.Config
