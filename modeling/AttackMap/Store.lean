import AttackMap.Aggregate
import AttackMap.Filter

/-!
# The event store

The events the client holds, oldest arrival first, and the latest
aggregate. An event whose identity is held already takes the place of the
held one; a new event goes to the end, and if the store is then too full
the oldest leaves.

Capacity bounds what is held and expiry bounds what is shown, and neither
knows of the other: a dead event keeps its place until it is pushed out.

That there is never more than `capacity` and that there is room for at
least one are part of the type.
-/

namespace AttackMap

/-- What happened to an event given to the store. -/
inductive Placed where
  /-- It is new; so many older events left. -/
  | inserted (evicted : Nat)
  /-- It stands where the held one with its identity stood. -/
  | replaced
  deriving DecidableEq, Repr

/-- What a reader of the store gets: the events in order of arrival, dead
ones too, and the latest aggregate. It does not change with the store. -/
structure Snapshot where
  events : List Event
  aggregate : Option Aggregate

/-- The snapshot of a store to which nothing has come. -/
def Snapshot.empty : Snapshot := ⟨[], none⟩

/-- The events held, within a capacity. -/
structure Store where
  capacity : Nat
  events : List Event
  aggregate : Option Aggregate
  /-- How many events have been pushed out. -/
  evicted : Tally
  capacity_pos : 0 < capacity
  length_le : events.length ≤ capacity

namespace Store

/-- How many events a store holds unless told otherwise. -/
def usualCapacity : Nat := 6000

/-- A store with room for `capacity` events, and for one at least. -/
def withCapacity (capacity : Nat) : Store where
  capacity := max capacity 1
  events := []
  aggregate := none
  evicted := 0
  capacity_pos := by omega
  length_le := by simp

/-- The usual empty store. -/
def empty : Store := withCapacity usualCapacity

/-! ## Writing -/

/-- Whether an event with an identity is held. -/
def holds (s : Store) (id : EventId) : Bool := s.events.any (·.id == id)

/-- The events with `e` in the place of the first that has its identity. -/
def replaceFirst (e : Event) : List Event → List Event
  | [] => []
  | x :: r => if x.id = e.id then e :: r else x :: replaceFirst e r

theorem length_replaceFirst (e : Event) (es : List Event) :
    (replaceFirst e es).length = es.length := by
  induction es with
  | nil => rfl
  | cons x r ih => rw [replaceFirst]; split <;> simp [ih]

/-- How many of the oldest leave when an event is added at the end. -/
def overflow (s : Store) : Nat := s.events.length + 1 - s.capacity

/-- The store with one more event at the end. -/
def append (s : Store) (e : Event) : Store :=
  { s with
    events := (s.events ++ [e]).drop s.overflow
    evicted := s.evicted.plus (.nearest s.overflow)
    length_le := by
      have := s.length_le
      simp only [List.length_drop, List.length_append, List.length_singleton, overflow]
      omega }

/-- Give an event to the store. -/
def upsert (s : Store) (e : Event) : Store × Placed :=
  if s.holds e.id then
    ({ s with
        events := replaceFirst e s.events
        length_le := by rw [length_replaceFirst]; exact s.length_le }, .replaced)
  else (s.append e, .inserted s.overflow)

/-- Take a new aggregate in place of the old. -/
def setAggregate (s : Store) (a : Aggregate) : Store := { s with aggregate := some a }

/-! ## Reading -/

/-- The live events of the kinds, severities and country that a filter asks
for, in order of arrival. -/
def query (s : Store) (f : Filter) (now : Millis) : List Event :=
  s.events.filter fun e =>
    e.isAlive now && f.minSeverity ≤ e.severity && e.kind ∈ f.enabled && f.matchesCountry e

def snapshot (s : Store) : Snapshot := ⟨s.events, s.aggregate⟩

/-- The number of events held, dead ones too. -/
def size (s : Store) : Nat := s.events.length

def isEmpty (s : Store) : Bool := s.events.isEmpty

/-! ## What a write does to the identities -/

theorem holds_iff {s : Store} {id : EventId} : s.holds id = true ↔ id ∈ s.events.map (·.id) := by
  simp [holds, List.any_eq_true]

theorem map_id_replaceFirst (e : Event) (es : List Event) :
    (replaceFirst e es).map (·.id) = es.map (·.id) := by
  induction es with
  | nil => rfl
  | cons x r ih =>
    rw [replaceFirst]
    split
    · next h => rw [List.map_cons, List.map_cons, h]
    · rw [List.map_cons, List.map_cons, ih]

/-- An event that is there after a replacement is the new one, or it was
there before and has another identity. -/
theorem mem_replaceFirst {e x : Event} {es : List Event} (nodup : (es.map (·.id)).Nodup)
    (h : x ∈ replaceFirst e es) : x = e ∨ x ∈ es ∧ x.id ≠ e.id := by
  induction es with
  | nil => cases h
  | cons y r ih =>
    obtain ⟨hy, hr⟩ := List.nodup_cons.mp nodup
    rw [replaceFirst] at h
    split at h
    · next heq =>
      rcases List.mem_cons.mp h with rfl | h
      · exact .inl rfl
      · refine .inr ⟨List.mem_cons_of_mem _ h, fun hx => hy ?_⟩
        exact List.mem_map.mpr ⟨x, h, hx.trans heq.symm⟩
    · next hne =>
      rcases List.mem_cons.mp h with rfl | h
      · exact .inr ⟨List.mem_cons_self, hne⟩
      · exact (ih hr h).imp_right fun ⟨hx, hid⟩ => ⟨List.mem_cons_of_mem _ hx, hid⟩

/-- An event that is there already replaces itself. -/
theorem replaceFirst_self {e : Event} {es : List Event} (nodup : (es.map (·.id)).Nodup)
    (h : e ∈ es) : replaceFirst e es = es := by
  induction es with
  | nil => cases h
  | cons y r ih =>
    obtain ⟨hy, hr⟩ := List.nodup_cons.mp nodup
    rw [replaceFirst]
    rcases List.mem_cons.mp h with rfl | h
    · rw [if_pos rfl]
    · have hne : y.id ≠ e.id := fun heq => hy (List.mem_map.mpr ⟨e, h, heq.symm⟩)
      rw [if_neg hne, ih hr h]

theorem events_upsert_of_holds {s : Store} {e : Event} (h : s.holds e.id = true) :
    (s.upsert e).1.events = replaceFirst e s.events := by
  rw [upsert, if_pos h]

theorem events_upsert_of_new {s : Store} {e : Event} (h : s.holds e.id = false) :
    (s.upsert e).1.events = (s.events ++ [e]).drop s.overflow := by
  rw [upsert, h, if_neg Bool.false_ne_true, append]

theorem placed_upsert_of_holds {s : Store} {e : Event} (h : s.holds e.id = true) :
    (s.upsert e).2 = .replaced := by
  rw [upsert, if_pos h]

theorem placed_upsert_of_new {s : Store} {e : Event} (h : s.holds e.id = false) :
    (s.upsert e).2 = .inserted s.overflow := by
  rw [upsert, h, if_neg Bool.false_ne_true]

@[simp] theorem capacity_upsert (s : Store) (e : Event) :
    (s.upsert e).1.capacity = s.capacity := by
  unfold upsert
  split <;> rfl

/-- At most one event leaves for one that comes. -/
theorem overflow_le_one (s : Store) : s.overflow ≤ 1 := by
  have := s.length_le
  simp only [overflow]
  omega

end Store

end AttackMap
