import AttackMap.Aggregate
import AttackMap.Frame.Palette

/-!
# Heat

What the aggregate says about each cell of the grid, as discs that grow and
thicken with the number of events in the cell. Heat shows the whole window
as the server saw it, whatever the client holds.
-/

namespace AttackMap

/-- A disc in the middle of a cell. -/
structure HeatSample (α : Type) where
  position : LonLat α
  /-- In metres. -/
  radius : α
  fill : Rgba
  count : UInt64
  severitySum : UInt64

namespace HeatSample

variable {α : Type} [Scalar α]

/-- The middle of a cell. -/
def center (b : HeatBucket) : LonLat α :=
  ⟨Scalar.fused (Scalar.ofInt b.lonBin.toInt) 5.0 2.5,
    Scalar.fused (Scalar.ofInt b.latBin.toInt) 5.0 2.5⟩

/-- What the count of a cell adds to the radius of its disc. -/
def extraRadius (count : Tally) : Tally := min (count.times 6500) 120000

/-- How opaque the disc of a cell is. -/
def opacity (count : Tally) : Tally := min ((count.times 4).plus 18) 160

/-- The disc of a cell. -/
def ofBucket (b : HeatBucket) : HeatSample α where
  position := center b
  radius := 18000.0 + Scalar.ofNat (extraRadius b.count).toNat
  fill := ⟨124, 58, 237, (opacity b.count).toUInt8⟩
  count := b.count
  severitySum := b.severitySum

/-- The discs of an aggregate, if there is one. -/
def ofAggregate (a : Option Aggregate) : List (HeatSample α) :=
  a.elim [] fun a => a.heat.map ofBucket

end HeatSample

end AttackMap
