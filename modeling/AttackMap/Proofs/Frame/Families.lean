import AttackMap.Frame.Basic
import AttackMap.Proofs.Client.Repetition
import AttackMap.Proofs.Frame.Survivors
import Mathlib.Data.List.DropRight

/-!
# The families of a frame

A frame draws one list of events four times: with arcs and trips as many of
the newest as it draws at all, with dots fewer and with rings fewer still.
Each family is cut down for itself, and the cuts are nested
(`newest_newest`): however many events are left over by the filter, what has
a ring has a dot, and what has a dot has an arc and a trip (`Families`).

So nothing is drawn twice that was stored once, and nothing that is dead.
-/

namespace AttackMap

namespace VisibleEvent

variable {β γ : Type}

/-! ## The newest of a list -/

theorem newest_eq_rtake (n : Nat) (xs : List β) : newest n xs = xs.rtake (min xs.length n) := by
  rw [newest, List.rtake]
  congr 1
  omega

/-- Fewer of the newest are the newest of the whole. -/
theorem newest_newest {m n : Nat} (fewer : m ≤ n) (xs : List β) :
    newest m (newest n xs) = newest m xs := by
  rw [newest, length_newest, newest, List.drop_drop, newest]
  congr 1
  omega

theorem map_newest (g : β → γ) (n : Nat) (xs : List β) :
    (newest n xs).map g = newest n (xs.map g) := by
  rw [newest, newest, List.map_drop, List.length_map]

theorem newest_sublist (n : Nat) (xs : List β) : (newest n xs).Sublist xs :=
  List.drop_sublist _ xs

/-- What a list is turned into item by item, some of it left out, bears the
marks of the items it comes from. -/
theorem map_filterMap_sublist {δ : Type} {make : β → Option γ} {mark : γ → δ} {mark' : β → δ}
    (keeps : ∀ x y, make x = some y → mark y = mark' x) (xs : List β) :
    ((xs.filterMap make).map mark).Sublist (xs.map mark') := by
  induction xs with
  | nil => exact .slnil
  | cons x rest ih =>
    cases made : make x with
    | none =>
      rw [List.filterMap_cons_none made]
      exact ih.cons _
    | some y =>
      rw [List.filterMap_cons_some made, List.map_cons, List.map_cons, keeps x y made]
      exact ih.cons_cons _

/-! ## Events that survive -/

/-- The tests on the way to the map: the filter's, a place at both ends, and
some life left. -/
def survives (f : Filter) (now : Millis) (e : Event) : Bool :=
  f.admits e && e.src.coordinates.isSome && e.dst.coordinates.isSome &&
    decide ((0.0 : Float) < e.life now)

theorem map_event_survivors_eq_filter (es : List Event) (f : Filter) (now : Millis) :
    (survivors es f now : List (VisibleEvent Float)).map (·.event) =
      es.filter (survives f now) := by
  rw [map_event_survivors]
  refine List.filter_congr fun e _ => ?_
  have life : decide ((0.0 : Float) < e.life now) = e.isAlive now := by
    rw [Bool.eq_iff_iff, decide_eq_true_iff]
    exact e.zero_lt_life_iff now
  rw [survives, isDrawable, life, e.src.isSome_coordinates, e.dst.isSome_coordinates]
  ac_rfl

/-- The newest of the survivors, known by the identities of their events. -/
theorem map_id_newest (n : Nat) (es : List Event) (f : Filter) (now : Millis) :
    (newest n (survivors es f now : List (VisibleEvent Float))).map (·.event.id) =
      ((es.filter (survives f now)).rtake (min (es.filter (survives f now)).length n)).map
        (·.id) := by
  rw [← newest_eq_rtake, ← map_event_survivors_eq_filter, ← map_newest, List.map_map]
  rfl

theorem event_mem_of_mem_newest {n : Nat} {es : List Event} {f : Filter} {now : Millis}
    {v : VisibleEvent Float} (mem : v ∈ newest n (survivors es f now)) :
    v.event ∈ es.filter (survives f now) := by
  rw [← map_event_survivors_eq_filter]
  exact List.mem_map_of_mem ((newest_sublist n _).subset mem)

/-- A survivor is alive by the clock. -/
theorem lt_expiresAt_of_survives {f : Filter} {now : Millis} {e : Event}
    (survives : survives f now e = true) : now < e.expiresAt := by
  rw [VisibleEvent.survives, Bool.and_eq_true, decide_eq_true_iff, e.zero_lt_life_iff] at survives
  exact of_decide_eq_true survives.2

/-- A ring belongs to its event and lies at its target. -/
theorem eq_of_pulse? {v : VisibleEvent Float} {now : Millis} {p : Pulse Float}
    (rings : v.pulse? now = some p) : p.id = v.event.id ∧ p.position = v.dst := by
  unfold pulse? at rings
  dsimp only at rings
  split at rings
  · rw [← Option.some.inj rings]
    exact ⟨rfl, rfl⟩
  · cases rings

end VisibleEvent

namespace Frame

open VisibleEvent

/-! ## The families -/

/-- The families of a frame, all drawn of the newest of some events. -/
structure Families (frame : Frame Float) (now : Millis) (events : List Event) : Prop where
  /-- Every event has an arc, up to the most that are drawn. -/
  arcs : frame.arcs.map (·.id) = (events.rtake (min events.length 1800)).map (·.id)
  /-- So it has a trip. -/
  trips : frame.trips.map (·.id) = (events.rtake (min events.length 1800)).map (·.id)
  /-- The newer ones have a dot. -/
  markers : frame.markers.map (·.id) = (events.rtake (min events.length 500)).map (·.id)
  /-- Some of the newest have a ring. -/
  pulses : (frame.pulses.map (·.id)).Sublist ((events.rtake (min events.length 260)).map (·.id))
  /-- A ring has a dot beneath it, for the same event. -/
  ringed : ∀ p ∈ frame.pulses, ∃ v : VisibleEvent Float, v.event ∈ events ∧
    v.pulse? now = some p ∧ v.marker ∈ frame.markers ∧ v.arc ∈ frame.arcs ∧
    v.marker.id = p.id ∧ v.marker.position = p.position ∧ v.arc.target = p.position
  /-- A dot has an arc and a trip that lead to it, for the same event. -/
  dotted : ∀ m ∈ frame.markers, ∃ v : VisibleEvent Float, v.event ∈ events ∧
    v.marker = m ∧ v.arc ∈ frame.arcs ∧ v.trip ∈ frame.trips ∧
    v.arc.id = m.id ∧ v.trip.id = m.id ∧ v.arc.target = m.position

variable (s : Snapshot) (f : Filter) (now : Millis)

theorem pulseCount_le_most : pulseCount ≤ most := by decide

theorem markerCount_le_most : markerCount ≤ most := by decide

theorem pulseCount_le_markerCount : pulseCount ≤ markerCount := by decide

/-! Whatever the scalars, a family is cut out of the survivors. -/

section

variable {α : Type} [Scalar α]

theorem arcs_of :
    (of s f now : Frame α).arcs = (newest most (survivors s.events f now)).map arc := by
  unfold of
  dsimp only
  rw [VisibleEvent.visible]

theorem trips_of :
    (of s f now : Frame α).trips = (newest most (survivors s.events f now)).map trip := by
  unfold of
  dsimp only
  rw [VisibleEvent.visible]

/-- Dots are those of the newest survivors, the larger cut being no matter. -/
theorem markers_of :
    (of s f now : Frame α).markers =
      (newest markerCount (survivors s.events f now)).map marker := by
  unfold of
  dsimp only
  rw [VisibleEvent.visible, newest_newest markerCount_le_most]

theorem pulses_of :
    (of s f now : Frame α).pulses =
      (newest pulseCount (survivors s.events f now)).filterMap (pulse? · now) := by
  unfold of
  dsimp only
  rw [VisibleEvent.visible, newest_newest pulseCount_le_most]

end

/-- What is among the newest few is among the newest many. -/
theorem mem_newest_of_le {m n : Nat} (fewer : m ≤ n) {β : Type} {x : β} {xs : List β}
    (mem : x ∈ newest m xs) : x ∈ newest n xs := by
  rw [← newest_newest fewer] at mem
  exact (newest_sublist m _).subset mem

/-- The identities of a family that is drawn item by item. -/
theorem map_id_map_newest {γ : Type} (make : VisibleEvent Float → γ) (id : γ → EventId)
    (keeps : ∀ v, id (make v) = v.event.id) (n : Nat) :
    ((newest n (survivors s.events f now)).map make).map id =
      ((s.events.filter (survives f now)).rtake
        (min (s.events.filter (survives f now)).length n)).map (·.id) := by
  rw [List.map_map, ← map_id_newest]
  exact List.map_congr_left fun v _ => keeps v

theorem families_of : Families (of s f now) now (s.events.filter (survives f now)) where
  arcs := by
    rw [arcs_of, map_id_map_newest s f now arc (·.id) fun _ => rfl, most]
  trips := by
    rw [trips_of, map_id_map_newest s f now trip (·.id) fun _ => rfl, most]
  markers := by
    rw [markers_of, map_id_map_newest s f now marker (·.id) fun _ => rfl, markerCount]
  pulses := by
    have marked : (((newest pulseCount (survivors s.events f now)).filterMap
        (pulse? · now)).map fun p : Pulse Float => p.id).Sublist _ :=
      map_filterMap_sublist (fun v p rings => (eq_of_pulse? rings).1) _
    rw [map_id_newest, pulseCount] at marked
    rw [pulses_of, pulseCount]
    exact marked
  ringed := by
    intro p mem
    rw [pulses_of] at mem
    obtain ⟨v, among, rings⟩ := List.mem_filterMap.mp mem
    obtain ⟨id, position⟩ := eq_of_pulse? rings
    refine ⟨v, event_mem_of_mem_newest among, rings, ?_, ?_, id.symm, position.symm,
      position.symm⟩
    · rw [markers_of]
      exact List.mem_map_of_mem (mem_newest_of_le pulseCount_le_markerCount among)
    · rw [arcs_of]
      exact List.mem_map_of_mem (mem_newest_of_le pulseCount_le_most among)
  dotted := by
    intro m mem
    rw [markers_of] at mem
    obtain ⟨v, among, rfl⟩ := List.mem_map.mp mem
    have larger := mem_newest_of_le markerCount_le_most among
    refine ⟨v, event_mem_of_mem_newest among, rfl, ?_, ?_, rfl, rfl, rfl⟩
    · rw [arcs_of]
      exact List.mem_map_of_mem larger
    · rw [trips_of]
      exact List.mem_map_of_mem larger

/-- The identities of what belongs to an event, family by family. -/
def families (frame : Frame Float) : List (List EventId) :=
  [frame.arcs.map (·.id), frame.trips.map (·.id), frame.markers.map (·.id),
    frame.pulses.map (·.id)]

/-- No family draws what does not survive, and none draws out of order. -/
theorem sublist_of_mem_families {family : List EventId}
    (mem : family ∈ (of s f now : Frame Float).families) :
    family.Sublist ((s.events.filter (survives f now)).map (·.id)) := by
  have cut : ∀ n, (((s.events.filter (survives f now)).rtake n).map (·.id)).Sublist
      ((s.events.filter (survives f now)).map (·.id)) :=
    fun n => (List.drop_sublist _ _).map _
  have drawn := families_of s f now
  simp only [families, List.mem_cons, List.not_mem_nil, or_false] at mem
  rcases mem with arcs | trips | markers | pulses
  · rw [arcs, drawn.arcs]
    exact cut _
  · rw [trips, drawn.trips]
    exact cut _
  · rw [markers, drawn.markers]
    exact cut _
  · rw [pulses]
    exact drawn.pulses.trans (cut _)

/-- **Every family is drawn of the newest survivors.** Arcs and trips are
those of the newest 1800, dots of the newest 500 and rings of some of the
newest 260, each in order of arrival and with what it lies upon. Nothing that
was stored once is drawn twice in a family, and whatever is drawn is stored
and is not dead. -/
theorem drawn_of_survivors :
    Families (of s f now) now (s.events.filter (survives f now)) ∧
      ((s.events.map (·.id)).Nodup →
        ∀ family ∈ (of s f now : Frame Float).families, family.Nodup) ∧
      ∀ family ∈ (of s f now : Frame Float).families, ∀ id ∈ family,
        ∃ e ∈ s.events, e.id = id ∧ now < e.expiresAt := by
  refine ⟨families_of s f now, fun distinct family mem => ?_, fun family mem id drawn => ?_⟩
  · have kept := (List.filter_sublist (p := survives f now) (l := s.events)).map (·.id)
    exact distinct.sublist ((sublist_of_mem_families s f now mem).trans kept)
  · have survived := (sublist_of_mem_families s f now mem).subset drawn
    obtain ⟨e, among, id⟩ := List.mem_map.mp survived
    obtain ⟨stored, survives⟩ := List.mem_filter.mp among
    exact ⟨e, stored, id, lt_expiresAt_of_survives survives⟩

/-- Two events between two places. -/
def pair : Snapshot where
  events := [1, 2].map fun n =>
    { Client.numbered n with
      src := { Endpoint.unknown with geo := some ⟨some 0, some 0, none, none, none⟩ }
      dst := { Endpoint.unknown with geo := some ⟨some 45, some 45, none, none, none⟩ } }
  aggregate := none

theorem drawn_of_survivors_pair :
    (pair.events.map (·.id)).Nodup ∧
      (of pair .initial 1 : Frame Float).arcs.map (·.id) = [.ofNat 1, .ofNat 2] ∧
      ∀ family ∈ (of pair .initial 1 : Frame Float).families, family.Nodup := by
  have distinct : (pair.events.map (·.id)).Nodup := by decide
  obtain ⟨drawn, once, -⟩ := drawn_of_survivors pair .initial 1
  refine ⟨distinct, ?_, once distinct⟩
  rw [drawn.arcs]
  decide +kernel

end Frame

end AttackMap
