import AttackMap.Filter
import AttackMap.Frame.Scalar

/-!
# Visible events

The events that a frame draws: those the filter admits that have
coordinates at both ends and some life left. `survivors` are all of them,
`visible` the newest of these.
-/

namespace AttackMap

variable {α : Type} [Scalar α]

/-- The share of its lifetime an event has left, from 0 to 1. -/
def Event.life (e : Event) (now : Millis) : α :=
  Scalar.clamp (Scalar.ofInt (e.remaining now).toInt / Scalar.ofInt e.lifetime.toInt)

/-- A point in the scalars of a drawing. -/
def LonLat.toScalar (p : LonLat Float) : LonLat α := ⟨Scalar.ofFloat p.lon, Scalar.ofFloat p.lat⟩

/-- An event to draw. -/
structure VisibleEvent (α : Type) where
  event : Event
  src : LonLat α
  dst : LonLat α
  life : α

namespace VisibleEvent

/-- The most events that one frame draws. -/
def most : Nat := 1800

/-- An event as it is drawn, if it has ends to be drawn between and life. -/
def of? (e : Event) (now : Millis) : Option (VisibleEvent α) :=
  match e.src.coordinates, e.dst.coordinates with
  | some src, some dst =>
    let life : α := e.life now
    if Scalar.less 0.0 life then some ⟨e, src.toScalar, dst.toScalar, life⟩ else none
  | _, _ => none

/-- The events that could be drawn, in order of arrival. -/
def survivors (es : List Event) (f : Filter) (now : Millis) : List (VisibleEvent α) :=
  (es.filter f.admits).filterMap (of? · now)

/-- The last `n` of a list. -/
def newest {β : Type} (n : Nat) (xs : List β) : List β := xs.drop (xs.length - n)

/-- The events that are drawn, in order of arrival. -/
def visible (es : List Event) (f : Filter) (now : Millis) : List (VisibleEvent α) :=
  newest most (survivors es f now)

theorem length_newest {β : Type} (n : Nat) (xs : List β) :
    (newest n xs).length = min n xs.length := by
  simp only [newest, List.length_drop]
  omega

end VisibleEvent

end AttackMap
