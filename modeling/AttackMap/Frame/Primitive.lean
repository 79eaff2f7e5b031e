import AttackMap.Frame.Palette
import AttackMap.Frame.Path
import AttackMap.Frame.Visible

/-!
# Primitives

What is drawn for a visible event: an arc between its ends, a trip that
travels the curved path, a dot at the target, and for a short time after
the trip's head arrives a ring that grows and fades.

The worse an attack, the faster it travels; the more of its life is gone,
the fainter it is.
-/

namespace AttackMap

variable {α : Type}

/-- A great arc. -/
structure Arc (α : Type) where
  id : EventId
  source : LonLat α
  target : LonLat α
  sourceColor : Rgba
  targetColor : Rgba
  /-- In pixels. -/
  width : α

/-- A head that travels a path, with a trail behind it. -/
structure Trip (α : Type) where
  id : EventId
  path : List (LonLat α)
  /-- When the head is at each point of the path, in epoch milliseconds. -/
  timestamps : List α
  color : Rgba
  /-- In milliseconds. -/
  trail : α

/-- A ring at the target just after impact. -/
structure Pulse (α : Type) where
  id : EventId
  position : LonLat α
  /-- In metres. -/
  radius : α
  fill : Rgba
  line : Rgba

/-- A dot at the target. -/
structure Marker (α : Type) where
  id : EventId
  position : LonLat α
  /-- In metres. -/
  radius : α
  fill : Rgba

variable [Scalar α]

/-- The milliseconds from detection to impact. -/
def travelTime (severity : UInt8) : α :=
  let clamped := if severity < 1 then 1 else min severity Event.maxSeverity
  Scalar.fused (Scalar.ofNat (Event.maxSeverity.toNat - clamped.toNat)) 120.0 1200.0

namespace VisibleEvent

def severity (v : VisibleEvent α) : UInt8 := v.event.clampedSeverity

/-- When the event was detected. -/
def detected (v : VisibleEvent α) : α := Scalar.ofInt v.event.detectedAt.toInt

def arc (v : VisibleEvent α) : Arc α where
  id := v.event.id
  source := v.src
  target := v.dst
  sourceColor := .ofSeverity v.severity (0.75 * v.life)
  targetColor := .ofSeverity v.severity (0.95 * v.life)
  width := Scalar.ofNat (v.severity / 2).toNat + 1.0

def trip (v : VisibleEvent α) : Trip α :=
  let path := Path.points v.src v.dst Path.usualSteps
  let step : α := travelTime v.severity / Scalar.ofNat Path.usualSteps
  { id := v.event.id
    path
    timestamps := (List.range path.length).map fun i =>
      Scalar.fused (Scalar.ofNat i) step v.detected
    color := .ofSeverity v.severity v.life
    trail := 800.0 }

/-- The milliseconds for which a ring is drawn. -/
def pulseTime : α := 900.0

/-- The ring of an event, while it lasts. It begins at impact and is gone
when `pulseTime` is over. -/
def pulse? (v : VisibleEvent α) (now : Millis) : Option (Pulse α) :=
  let impact := v.detected + travelTime v.severity
  let age := Scalar.ofInt now.toInt - impact
  if Scalar.atMost 0.0 age && Scalar.atMost age pulseTime then
    let left : α := 1.0 - Scalar.clamp01 (age / pulseTime)
    some
      { id := v.event.id
        position := v.dst
        radius := Scalar.fused (1.0 - left) 55000.0 12000.0
        fill := .ofSeverity v.severity (0.1 * left)
        line := .ofSeverity v.severity (0.35 * left) }
  else none

def marker (v : VisibleEvent α) : Marker α where
  id := v.event.id
  position := v.dst
  radius := Scalar.fused (Scalar.ofNat v.severity.toNat) 2200.0 5000.0
  fill := .ofSeverity v.severity (0.12 * v.life)

end VisibleEvent

end AttackMap
