import AttackMap.Frame.Visible
import AttackMap.Proofs.Binary64.Sign
import AttackMap.Store

/-!
# The map and the list

Two readers of the store decide what the user sees. The list asks whether
an event is alive, which compares two whole numbers; the map asks whether
it has life left, which is a saturated difference divided by the lifetime,
on doubles, and moved into the range from 0 to 1. They never disagree
(`zero_lt_life_iff`), whatever the lifetime, the expiry and the clock.

So the map leaves out what the list shows only for want of a place or of a
major severity, and shows what the list leaves out only for its country.
-/

namespace AttackMap

/-! ## Places -/

/-- Whether an endpoint has a longitude and a latitude, both finite. -/
def Endpoint.isPlaced (e : Endpoint) : Bool :=
  e.geo.any fun g => g.lon.any Float.isFinite && g.lat.any Float.isFinite

theorem Geo.isSome_coordinates (g : Geo) :
    g.coordinates.isSome = (g.lon.any Float.isFinite && g.lat.any Float.isFinite) := by
  unfold Geo.coordinates
  cases g.lon with
  | none => rfl
  | some lon =>
    cases g.lat with
    | none => rw [Option.any_none, Bool.and_false, Option.isSome_none]
    | some lat =>
      have guarded : ∀ b : Bool, (if b then some (⟨lon, lat⟩ : LonLat Float) else none).isSome = b
        | true | false => rfl
      exact guarded (lon.isFinite && lat.isFinite)

theorem Endpoint.isSome_coordinates (e : Endpoint) : e.coordinates.isSome = e.isPlaced := by
  unfold Endpoint.coordinates Endpoint.isPlaced
  cases e.geo with
  | none => rfl
  | some g => exact g.isSome_coordinates

/-! ## Life -/

/-- Having life left and being alive are one thing: the map and the list
take leave of an event in the same millisecond. -/
theorem Event.zero_lt_life_iff (e : Event) (now : Millis) :
    (0.0 : Float) < e.life now ↔ e.isAlive now = true := by
  rw [Event.life, Binary64.zero_lt_clamp_iff, isAlive_iff_remaining_pos]
  exact Binary64.zero_lt_quotient_iff (e.remaining now).le_toInt
    (Int.le_of_lt_add_one (e.remaining now).toInt_lt) e.lifetime_pos
    (Int.le_of_lt_add_one e.lifetime.toInt_lt)

namespace VisibleEvent

/-! ## What the map drops -/

/-- Whether an event can be drawn at all: it has two ends and is alive. -/
def isDrawable (e : Event) (now : Millis) : Bool :=
  e.src.isPlaced && e.dst.isPlaced && e.isAlive now

section

variable {α : Type} [Scalar α]

/-- An event is drawn if it can be, over any scalars that can tell life from none. -/
theorem map_event_of? {now : Millis} {e : Event}
    (alive : Scalar.less (0.0 : α) (e.life now) = e.isAlive now) :
    (of? e now : Option (VisibleEvent α)).map (·.event) = Option.guard (isDrawable · now) e := by
  rw [Option.guard, isDrawable, ← e.src.isSome_coordinates, ← e.dst.isSome_coordinates, of?]
  cases e.src.coordinates with
  | none => rfl
  | some src =>
    cases e.dst.coordinates with
    | none => rfl
    | some dst =>
      simp only [alive, Option.isSome_some, Bool.true_and]
      split <;> rfl

theorem map_event_survivors_of {now : Millis}
    (alive : ∀ e : Event, Scalar.less (0.0 : α) (e.life now) = e.isAlive now) (es : List Event)
    (f : Filter) :
    (survivors es f now : List (VisibleEvent α)).map (·.event) =
      es.filter fun e => isDrawable e now && f.admits e := by
  have drawn : (fun e => Option.map (·.event) (of? e now : Option (VisibleEvent α))) =
      Option.guard (isDrawable · now) := funext fun e => map_event_of? (alive e)
  rw [survivors, List.map_filterMap, drawn, List.filterMap_eq_filter, List.filter_filter]

end

/-- The events of the survivors: the filter's test on kind and severity, and
the map's own. -/
theorem map_event_survivors (es : List Event) (f : Filter) (now : Millis) :
    (survivors es f now : List (VisibleEvent Float)).map (·.event) =
      es.filter fun e => isDrawable e now && f.admits e := by
  refine map_event_survivors_of (fun e => ?_) es f
  rw [Bool.eq_iff_iff, ← e.zero_lt_life_iff]
  exact decide_eq_true_iff

/-- **The map and the list differ only by country, majors and missing
places.** The survivors in the country asked for are the listed events that
have a place at both ends and, if only majors are asked for, are major, in
the same order; and an event is alive exactly as long as it has life left. -/
theorem survivors_in_country (s : Store) (f : Filter) (now : Millis) :
    ((survivors s.snapshot.events f now : List (VisibleEvent Float)).filter
          (f.matchesCountry ·.event)).map (·.event) =
        (s.query f now).filter (fun e => e.src.isPlaced && e.dst.isPlaced &&
          (!f.majorOnly || decide (7 ≤ e.severity))) ∧
      ∀ e : Event, e.isAlive now = true ↔ (0.0 : Float) < e.life now := by
  refine ⟨?_, fun e => (e.zero_lt_life_iff now).symm⟩
  have moved := List.filter_map (p := f.matchesCountry)
    (f := fun v : VisibleEvent Float => v.event) (l := survivors s.snapshot.events f now)
  rw [Function.comp_def] at moved
  rw [← moved, map_event_survivors, Store.query, List.filter_filter, List.filter_filter]
  refine List.filter_congr fun e _ => ?_
  simp only [isDrawable, Filter.admits, Filter.admitsSeverity, Event.majorSeverity]
  -- the same tests, in another order
  ac_rfl

end VisibleEvent

end AttackMap
