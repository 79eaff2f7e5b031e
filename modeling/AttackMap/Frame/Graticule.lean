import AttackMap.Endpoint
import AttackMap.Frame.Palette

/-!
# The graticule

The grid beneath everything else: meridians and parallels twenty degrees
apart, every second one stronger.
-/

namespace AttackMap

/-- A straight line of the grid. -/
structure GridLine (α : Type) where
  source : LonLat α
  target : LonLat α
  color : Rgba
  /-- In pixels. -/
  width : α

namespace GridLine

variable {α : Type} [Scalar α]

/-- Degrees between neighbours. -/
def spacing : Nat := 20

/-- Degrees between strong lines. -/
def strongSpacing : Int := 40

/-- A line, strong or not. -/
def of (source target : LonLat α) (strong : Bool) : GridLine α :=
  ⟨source, target, ⟨0, 229, 255, Scalar.toByte (55.0 * (if strong then 1.0 else 0.6) : α)⟩,
    if strong then 1.2 else 0.9⟩

/-- The multiples of `spacing` from `-reach` to `reach`, in degrees. -/
def degrees (reach : Nat) : List Int :=
  (List.range (2 * reach / spacing + 1)).map fun (i : Nat) => (spacing * i : Nat) - (reach : Int)

/-- Meridians from west to east, then parallels from south to north. -/
def graticule : List (GridLine α) :=
  let meridian (lon : Int) : GridLine α :=
    of ⟨Scalar.ofInt lon, Scalar.ofInt (-70)⟩ ⟨Scalar.ofInt lon, Scalar.ofInt 70⟩
      (lon % strongSpacing = 0)
  let parallel (lat : Int) : GridLine α :=
    of ⟨Scalar.ofInt (-180), Scalar.ofInt lat⟩ ⟨Scalar.ofInt 180, Scalar.ofInt lat⟩
      (lat % strongSpacing = 0)
  (degrees 180).map meridian ++ (degrees 60).map parallel

theorem length_graticule : (graticule : List (GridLine α)).length = 26 := by
  simp [graticule, degrees, spacing]

end GridLine

end AttackMap
