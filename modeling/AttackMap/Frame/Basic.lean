import AttackMap.Frame.Graticule
import AttackMap.Frame.Heat
import AttackMap.Frame.Primitive
import AttackMap.Store

/-!
# Frames

Everything to draw at one moment, from a snapshot, a filter and the time
alone. Every visible event has an arc and a trip, the newer ones a dot, and
the newest a ring while it lasts.
-/

namespace AttackMap

/-- What is drawn. -/
structure Frame (α : Type) where
  now : Millis
  grid : List (GridLine α)
  heat : List (HeatSample α)
  arcs : List (Arc α)
  trips : List (Trip α)
  pulses : List (Pulse α)
  markers : List (Marker α)

namespace Frame

variable {α : Type}

/-- How many of the newest visible events may have a ring. -/
def pulseCount : Nat := 260

/-- How many of the newest visible events have a dot. -/
def markerCount : Nat := 500

/-- How many things are drawn. -/
def size (f : Frame α) : Nat :=
  f.grid.length + f.heat.length + f.arcs.length + f.trips.length + f.pulses.length
    + f.markers.length

variable [Scalar α]

/-- The frame of a snapshot. -/
def of (s : Snapshot) (f : Filter) (now : Millis) : Frame α :=
  let visible : List (VisibleEvent α) := VisibleEvent.visible s.events f now
  { now
    grid := GridLine.graticule
    heat := HeatSample.ofAggregate s.aggregate
    arcs := visible.map VisibleEvent.arc
    trips := visible.map VisibleEvent.trip
    pulses := (VisibleEvent.newest pulseCount visible).filterMap (VisibleEvent.pulse? · now)
    markers := (VisibleEvent.newest markerCount visible).map VisibleEvent.marker }

end Frame

end AttackMap
