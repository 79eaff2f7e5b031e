import AttackMap.Frame.Scalar

/-!
# Colours

A severity has a colour, cool at 1 and warm at 10, on a straight line
between the two. Severities outside of 1..10 have the colour of the nearer
end.
-/

namespace AttackMap

/-- A colour with its opacity. -/
structure Rgba where
  red : UInt8
  green : UInt8
  blue : UInt8
  alpha : UInt8
  deriving DecidableEq, Repr

namespace Rgba

variable {α : Type} [Scalar α]

/-- The colour of a severity, with an opacity from 0 to 1. -/
def ofSeverity (severity : UInt8) (opacity : α) : Rgba :=
  let t : α := Scalar.clamp01 ((Scalar.ofNat severity.toNat - 1.0) / 9.0)
  { red := Scalar.toByte (Scalar.fused 200.0 t 40.0 : α)
    green := Scalar.toByte (Scalar.fused (Scalar.ofInt (-80)) t 190.0 : α)
    blue := Scalar.toByte (Scalar.fused (Scalar.ofInt (-160)) t 220.0 : α)
    alpha := Scalar.toByte (255.0 * Scalar.clamp01 opacity : α) }

end Rgba

end AttackMap
