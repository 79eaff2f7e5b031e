import AttackMap.Binary64
import AttackMap.Proofs.Binary64.Sign

/-!
# The order of doubles

Doubles that are not numbers are in no order, so to be not above a bound is
less than to be at most it. Of finite doubles the two are one
(`le_iff_not_lt`), and every double that is read from a decimal fraction is
finite (`isFinite_of_ofDecimal?`).
-/

namespace AttackMap.Binary64

open Float.Model (UnpackedFloat)

theorem le_iff (x y : Float) :
    x ≤ y ↔ UnpackedFloat.le x.toModel.unpack y.toModel.unpack = true := by
  change (decide (Float.Model.le _ _ = true)) = true ↔ _
  rw [decide_eq_true_eq]
  rfl

/-- Compared the other way round, the order is the other. -/
theorem compare_swap (a b : UnpackedFloat) : (a.compare b).map Ordering.swap = b.compare a := by
  cases a with
  | notANumber => cases b <;> rfl
  | infinity s =>
    cases b with
    | infinity t => cases s <;> cases t <;> rfl
    | _ => cases s <;> rfl
  | zero s =>
    cases b with
    | infinity t => cases t <;> rfl
    | finite t => cases t <;> rfl
    | _ => rfl
  | finite s m e pos =>
    cases b with
    | notANumber => rfl
    | infinity t => cases t <;> rfl
    | zero t => cases s <;> rfl
    | finite t n f npos =>
      cases s <;> cases t <;>
        simp [UnpackedFloat.compare, Ordering.swap_then, Int.compare_swap, Nat.compare_swap]

/-- Finite doubles are in some order. -/
theorem exists_compare {a b : UnpackedFloat} (ha : a.isFinite = true) (hb : b.isFinite = true) :
    ∃ o, a.compare b = some o := by
  cases a with
  | notANumber | infinity => cases ha
  | zero s =>
    cases b with
    | notANumber | infinity => cases hb
    | zero t => exact ⟨.eq, rfl⟩
    | finite t => cases t <;> exact ⟨_, rfl⟩
  | finite s m e pos =>
    cases b with
    | notANumber | infinity => cases hb
    | zero t => cases s <;> exact ⟨_, rfl⟩
    | finite t n f npos => cases s <;> cases t <;> exact ⟨_, rfl⟩

/-- Of finite doubles, what is not above is at most. -/
theorem le_iff_not_lt {x y : Float} (hx : x.isFinite = true) (hy : y.isFinite = true) :
    x ≤ y ↔ ¬ y < x := by
  obtain ⟨o, order⟩ := exists_compare (a := y.toModel.unpack) (b := x.toModel.unpack) hy hx
  rw [le_iff, lt_iff, UnpackedFloat.le, UnpackedFloat.lt, ← compare_swap, order]
  cases o <;> decide

/-- What is at most a bound is not above it; of doubles that are not numbers, neither holds. -/
theorem not_lt_of_le {x y : Float} (h : x ≤ y) : ¬ y < x := by
  rw [le_iff, UnpackedFloat.le] at h
  rw [lt_iff, UnpackedFloat.lt, ← compare_swap]
  cases order : x.toModel.unpack.compare y.toModel.unpack with
  | none =>
    rw [order] at h
    cases h
  | some o =>
    rw [order] at h
    cases o with
    | lt | eq => decide
    | gt => cases h

theorem isFinite_nearest_zero (negative : Bool) : (nearest negative 0 1).isFinite = true := by
  cases negative <;> decide

/-- What is read from a decimal fraction is finite. -/
theorem isFinite_of_ofDecimal? {negative : Bool} {m : Nat} {e : Int} {x : Float}
    (reads : ofDecimal? negative m e = some x) : x.isFinite = true := by
  unfold ofDecimal? at reads
  dsimp only at reads
  split at reads
  · rw [← Option.some.inj reads]
    exact isFinite_nearest_zero negative
  · split at reads
    · cases reads
    · split at reads
      · rw [← Option.some.inj reads]
        exact isFinite_nearest_zero negative
      · rw [Option.ite_none_right_eq_some] at reads
        rw [← Option.some.inj reads.2]
        exact reads.1

end AttackMap.Binary64
