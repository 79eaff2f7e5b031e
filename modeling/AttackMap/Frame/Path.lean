import AttackMap.Endpoint
import AttackMap.Frame.Scalar

/-!
# Paths

The way an attack travels: from source to target in equal steps, bowing
north by half a sine wave on top of the straight line between the two.
-/

namespace AttackMap

namespace Path

variable {α : Type} [Scalar α]

/-- How many segments the path of a trip has. -/
def usualSteps : Nat := 28

/-- How far north of the straight line the middle of a path lies, in degrees. -/
def bulge : α := 8.0

/-- The point at `t` of the way from `a` to `b`. -/
def between (a b t : α) : α := Scalar.fused (b - a) t a

/-- The point of the curve at `t` of the way. -/
def point (src dst : LonLat α) (t : α) : LonLat α :=
  ⟨between src.lon dst.lon t, between src.lat dst.lat t + Scalar.sinPi t * bulge⟩

/-- The curve in `steps` segments, and in one at least. -/
def points (src dst : LonLat α) (steps : Nat) : List (LonLat α) :=
  let steps := max steps 1
  (List.range (steps + 1)).map fun i => point src dst (Scalar.ofNat i / Scalar.ofNat steps)

theorem length_points (src dst : LonLat α) (steps : Nat) :
    (points src dst steps).length = max steps 1 + 1 := by
  simp [points]

end Path

end AttackMap
