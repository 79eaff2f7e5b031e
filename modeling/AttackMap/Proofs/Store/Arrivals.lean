import AttackMap.Store
import Mathlib.Data.List.DropRight

/-!
# What a store holds, by the record of its arrivals

A store is asked for many things in any order (`Request`): to take an event
or an aggregate, to answer a query, to be shown. Of all this only the
placements of events bear on what it holds, and the record of them
(`placements`) says it exactly (`contents_after`):

* the events held are the last to have been inserted, as many as there is
  room for, in the order of their insertion;
* each stands there as it was last given, which may be long after its
  insertion;
* an event replaces exactly when its identity is held, and otherwise pushes
  one out exactly when the store is full.

The invariant is `Recorded`. An identity may be inserted, pushed out and
inserted again; the record then names it twice, and the two insertions are
never both among the last, since between them a whole store went by.
-/

namespace AttackMap.Store

/-! ## Requests -/

/-- What a store is asked for. -/
inductive Request where
  | upsert (e : Event)
  | setAggregate (a : Aggregate)
  | query (f : Filter) (now : Millis)
  | snapshot

/-- What it answers. -/
inductive Answer where
  | placed (p : Placed)
  | taken
  | found (es : List Event)
  | shown (s : Snapshot)

/-- Do what is asked. -/
def serve (s : Store) : Request → Store × Answer
  | .upsert e => ((s.upsert e).1, .placed (s.upsert e).2)
  | .setAggregate a => (s.setAggregate a, .taken)
  | .query f now => (s, .found (s.query f now))
  | .snapshot => (s, .shown s.snapshot)

/-- The store after requests. -/
def after (s : Store) (rs : List Request) : Store := rs.foldl (fun s r => (s.serve r).1) s

/-- The requests with their answers. -/
def answered (s : Store) : List Request → List (Request × Answer)
  | [] => []
  | r :: rest => (r, (s.serve r).2) :: (s.serve r).1.answered rest

/-- An event given to the store and what happened to it. -/
def placement? : Request × Answer → Option (Event × Placed)
  | (.upsert e, .placed p) => some (e, p)
  | _ => none

/-- The events given to the store, each with what happened to it. -/
def placements (s : Store) (rs : List Request) : List (Event × Placed) :=
  (s.answered rs).filterMap placement?

theorem after_append (s : Store) (rs more : List Request) :
    s.after (rs ++ more) = (s.after rs).after more :=
  List.foldl_append

theorem answered_append (s : Store) (rs more : List Request) :
    s.answered (rs ++ more) = s.answered rs ++ (s.after rs).answered more := by
  induction rs generalizing s with
  | nil => rfl
  | cons r rest ih => rw [List.cons_append, answered, answered, ih, List.cons_append]; rfl

theorem placements_append (s : Store) (rs more : List Request) :
    s.placements (rs ++ more) = s.placements rs ++ (s.after rs).placements more := by
  rw [placements, answered_append, List.filterMap_append]
  rfl

/-! ## The record -/

/-- The event of a placement that inserted it. -/
def insertion? : Event × Placed → Option Event
  | (e, .inserted _) => some e
  | (_, .replaced) => none

/-- The events that were inserted, the first insertion first. -/
def insertions (record : List (Event × Placed)) : List Event := record.filterMap insertion?

/-- The event last given with an identity. -/
def latest (record : List (Event × Placed)) (id : EventId) : Option Event :=
  (record.map Prod.fst).reverse.find? (·.id = id)

theorem insertions_append (record more : List (Event × Placed)) :
    insertions (record ++ more) = insertions record ++ insertions more :=
  List.filterMap_append

theorem latest_snoc (record : List (Event × Placed)) (e : Event) (p : Placed) (id : EventId) :
    latest (record ++ [(e, p)]) id = if e.id = id then some e else latest record id := by
  simp only [latest, List.map_append, List.map_cons, List.map_nil, List.reverse_append,
    List.reverse_singleton, List.singleton_append, List.find?_cons]
  split <;> simp_all

/-- What a record says of the store that it is about. -/
structure Recorded (capacity : Nat) (record : List (Event × Placed)) (s : Store) : Prop where
  capacity_eq : s.capacity = capacity
  nodup : (s.events.map (·.id)).Nodup
  /-- The last to be inserted are held, in their order. -/
  arrivals : s.events.map (·.id) = ((insertions record).map (·.id)).rtake capacity
  /-- What is held is as it was last given. -/
  payloads : ∀ x ∈ s.events, latest record x.id = some x

/-! ## One placement -/

/-- The last of a list whose older part was cut before are the last of all. -/
theorem rtake_rtake_append {α : Type} {n : Nat} (pos : 0 < n) (xs : List α) (x : α) :
    (xs.rtake n ++ [x]).rtake n = (xs ++ [x]).rtake n := by
  obtain ⟨m, rfl⟩ : ∃ m, n = m + 1 := ⟨n - 1, by omega⟩
  rw [List.rtake_concat_succ, List.rtake_concat_succ]
  unfold List.rtake
  rw [List.drop_drop, List.length_drop]
  congr 2
  omega

/-- What is held once a new event has been appended. -/
theorem map_id_upsert_of_new {s : Store} {e : Event} (h : s.holds e.id = false) :
    (s.upsert e).1.events.map (·.id) = (s.events.map (·.id) ++ [e.id]).rtake s.capacity := by
  rw [events_upsert_of_new h, List.map_drop, List.map_append, List.rtake, overflow]
  simp

namespace Recorded

variable {capacity : Nat} {record : List (Event × Placed)} {s : Store}

/-- Nothing is recorded of an empty store. -/
theorem withCapacity (capacity : Nat) : Recorded (max capacity 1) [] (withCapacity capacity) where
  capacity_eq := rfl
  nodup := List.nodup_nil
  arrivals := by simp [Store.withCapacity, insertions]
  payloads := by simp [Store.withCapacity]

/-- A replacement inserts nothing and makes the new event the last given. -/
theorem replaced (h : Recorded capacity record s) {e : Event} (held : s.holds e.id = true) :
    Recorded capacity (record ++ [(e, .replaced)]) (s.upsert e).1 where
  capacity_eq := by rw [capacity_upsert, h.capacity_eq]
  nodup := by rw [events_upsert_of_holds held, map_id_replaceFirst]; exact h.nodup
  arrivals := by
    have none : insertions [(e, Placed.replaced)] = [] := rfl
    rw [events_upsert_of_holds held, map_id_replaceFirst, insertions_append, none,
      List.append_nil]
    exact h.arrivals
  payloads := by
    intro x hx
    rw [events_upsert_of_holds held] at hx
    rw [latest_snoc]
    rcases mem_replaceFirst h.nodup hx with rfl | ⟨hx, hne⟩
    · rw [if_pos rfl]
    · rw [if_neg (Ne.symm hne)]
      exact h.payloads x hx

/-- An insertion is the last of all, and what it leaves in place is as it was. -/
theorem inserted (h : Recorded capacity record s) {e : Event} (new : s.holds e.id = false) (n : Nat) :
    Recorded capacity (record ++ [(e, .inserted n)]) (s.upsert e).1 where
  capacity_eq := by rw [capacity_upsert, h.capacity_eq]
  nodup := by
    have fresh : e.id ∉ s.events.map (·.id) := by rw [← holds_iff, new]; exact Bool.false_ne_true
    rw [map_id_upsert_of_new new, List.rtake]
    refine (List.drop_sublist _ _).nodup (List.nodup_append.mpr ⟨h.nodup, List.pairwise_singleton _ _, ?_⟩)
    intro a ha b hb heq
    rw [List.mem_singleton.mp hb] at heq
    exact fresh (heq ▸ ha)
  arrivals := by
    have one : insertions [(e, Placed.inserted n)] = [e] := rfl
    have pos : 0 < capacity := h.capacity_eq ▸ s.capacity_pos
    rw [map_id_upsert_of_new new, h.capacity_eq, h.arrivals, rtake_rtake_append pos,
      insertions_append, one, List.map_append, List.map_singleton]
  payloads := by
    intro x hx
    rw [events_upsert_of_new new] at hx
    rw [latest_snoc]
    rcases List.mem_append.mp (List.mem_of_mem_drop hx) with hx | hx
    · have hne : e.id ≠ x.id := by
        intro heq
        have held : s.holds e.id = true := holds_iff.mpr (heq ▸ List.mem_map_of_mem hx)
        rw [new] at held
        cases held
      rw [if_neg hne]
      exact h.payloads x hx
    · rw [List.mem_singleton.mp hx, if_pos rfl]

/-- The record goes on with what the store says of a placement. -/
theorem upsert (h : Recorded capacity record s) (e : Event) :
    Recorded capacity (record ++ [(e, (s.upsert e).2)]) (s.upsert e).1 := by
  cases held : s.holds e.id with
  | true =>
    rw [placed_upsert_of_holds held]
    exact h.replaced held
  | false =>
    rw [placed_upsert_of_new held]
    exact h.inserted held _

/-- Requests of any kind keep the record true. -/
theorem serve (h : Recorded capacity record s) (r : Request) :
    Recorded capacity (record ++ s.placements [r]) (s.serve r).1 := by
  cases r with
  | upsert e => exact h.upsert e
  | setAggregate a => exact (List.append_nil record).symm ▸ ⟨h.1, h.2, h.3, h.4⟩
  | query f now => exact (List.append_nil record).symm ▸ h
  | snapshot => exact (List.append_nil record).symm ▸ h

/-- The record of a whole run. The induction is on the last request, since
the record grows at its end. -/
theorem after (h : Recorded capacity record s) (rs : List Request) :
    Recorded capacity (record ++ s.placements rs) (s.after rs) := by
  induction rs using List.reverseRecOn with
  | nil => exact (List.append_nil record).symm ▸ h
  | append_singleton rs r ih =>
    rw [placements_append, ← List.append_assoc, after_append]
    exact ih.serve r

end Recorded

/-- The placements of a store's life are a true record of it. -/
theorem recorded_after (capacity : Nat) (rs : List Request) :
    Recorded (max capacity 1) ((withCapacity capacity).placements rs)
      ((withCapacity capacity).after rs) :=
  (Recorded.withCapacity capacity).after rs

/-! ## What is held -/

/-- **The contents of a store**, after any requests. The events held are
those last inserted, as many as there is room for and in their order; no
two share an identity; each is as it was last given. What is given next
replaces if its identity is held, and otherwise pushes one out if the store
is full. -/
theorem contents_after (capacity : Nat) (rs : List Request) :
    let s := (withCapacity capacity).after rs
    let record := (withCapacity capacity).placements rs
    let room := max capacity 1
    (s.events.map (·.id)).Nodup ∧
    s.events.length ≤ room ∧
    s.events.map (·.id) =
      ((insertions record).rtake (min (insertions record).length room)).map (·.id) ∧
    (∀ x ∈ s.events, latest record x.id = some x) ∧
    ∀ e, (s.serve (.upsert e)).2 = .placed (if e.id ∈ s.events.map (·.id) then .replaced
      else .inserted (if s.events.length = room then 1 else 0)) := by
  intro s record room
  have h : Recorded room record s := recorded_after capacity rs
  have full : s.events.length ≤ room := h.capacity_eq ▸ s.length_le
  refine ⟨h.nodup, full, ?_, h.payloads, fun e => ?_⟩
  · rw [h.arrivals, List.rtake, List.rtake, List.map_drop, List.length_map]
    congr 1
    omega
  · cases held : s.holds e.id with
    | true => rw [if_pos (holds_iff.mp held), serve, placed_upsert_of_holds held]
    | false =>
      have fresh : e.id ∉ s.events.map (·.id) := by rw [← holds_iff, held]; exact Bool.false_ne_true
      have pushed : s.overflow = if s.events.length = room then 1 else 0 := by
        rw [overflow, h.capacity_eq]
        split <;> omega
      rw [if_neg fresh, serve, placed_upsert_of_new held, pushed]

end AttackMap.Store
