import AttackMap.Decimal.Shortest
import AttackMap.Text.Digits

/-!
# Numerals

A numeral is a number as it is written: a sign, a significand with some of
its digits after the point, and perhaps a power of ten. The numeral keeps
what a reader may ask about (was there a point? an exponent? a sign before
a zero?) and forgets the rest.

A whole number is a numeral without point and exponent. `-0` is written
like one but names the negative zero, which no whole number is, so it does
not count.

Doubles are written with their shortest digits. Where positional notation
ends is the same for every text this library writes; the texts differ in
whether a positive exponent carries a plus sign.
-/

namespace AttackMap

/-- `± significand · 10 ^ (exponent - places)`, written with `places` digits
after the point. -/
structure Numeral where
  negative : Bool
  significand : Nat
  places : Nat
  exponent : Option Int
  deriving Repr, DecidableEq

namespace Numeral

/-! ## Values -/

/-- The whole number that a numeral without point and exponent names. -/
def toInt? (n : Numeral) : Option Int :=
  if n.places = 0 ∧ n.exponent = none then
    if n.negative then
      if n.significand = 0 then none else some (-(n.significand : Int))
    else some n.significand
  else none

/-- The double nearest to the number, unless it lies beyond all doubles. -/
def toFloat? (n : Numeral) : Option Float :=
  Binary64.ofDecimal? n.negative n.significand (n.exponent.getD 0 - n.places)

/-! ## Writing -/

/-- How the exponent of a numeral is spelled. -/
inductive ExponentStyle where
  /-- `1e+16` -/
  | signed
  /-- `1e16` -/
  | bare
  deriving Repr, DecidableEq

/-- The digits of the significand, the point before the last `places`. -/
def mantissaText (n : Numeral) : List Char :=
  let ds := Text.padded (n.places + 1) n.significand
  let whole := ds.take (ds.length - n.places)
  if n.places = 0 then whole else whole ++ '.' :: ds.drop (ds.length - n.places)

/-- The exponent, if any. -/
def exponentText (style : ExponentStyle) : Option Int → List Char
  | none => []
  | some e =>
    let sign := if e < 0 then ['-'] else match style with
      | .signed => ['+']
      | .bare => []
    'e' :: sign ++ Text.decimal e.natAbs

/-- The text of a numeral. -/
def text (style : ExponentStyle) (n : Numeral) : List Char :=
  (if n.negative then ['-'] else []) ++ n.mantissaText ++ exponentText style n.exponent

/-- The numeral of a whole number. -/
def ofInt (i : Int) : Numeral := ⟨i < 0, i.natAbs, 0, none⟩

/-- The numeral of a decimal fraction. With its leading digit between
`10 ^ -5` and `10 ^ 15` it is positional, with at least one digit after the
point; otherwise one digit stands before the point. -/
def ofScientific (negative : Bool) (s : Decimal.Scientific) : Numeral :=
  let count := (Text.decimal s.digits).length
  let lead : Int := s.exponent + count - 1
  if -5 ≤ lead ∧ lead ≤ 15 then
    let places := max 1 (-s.exponent).toNat
    ⟨negative, s.digits * Nat.pow 10 (places + s.exponent).toNat, places, none⟩
  else ⟨negative, s.digits, count - 1, some lead⟩

/-- The numeral of a finite double; none for the others. -/
def ofFloat? (x : Float) : Option Numeral :=
  match Binary64.parts x with
  | .finite negative m e => some (ofScientific negative (Decimal.shortest m e))
  | _ => none

theorem toInt?_ofInt (i : Int) : (ofInt i).toInt? = some i := by
  unfold ofInt toInt?
  by_cases h : i < 0
  · simp only [h, decide_true, and_self, if_true]
    rw [if_neg (by omega)]
    congr 1; omega
  · simp only [h, decide_false, and_self, if_true, Bool.false_eq_true, if_false]
    congr 1; omega

end Numeral

end AttackMap
