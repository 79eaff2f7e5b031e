import AttackMap.Proofs.Store.Arrivals
import Mathlib.Data.List.Nodup

/-!
# Batches of events

What a store makes of several events given one after the other. Three
things carry the rest:

* an event that the batch inserts is still held when the batch is over,
  unless the batch is larger than the store (`Recorded.holds_of_inserted`):
  the insertions after it are too few to push it out;
* an event that the batch only replaces keeps the old place, and there the
  insertions after it may well push it out;
* a batch whose events are all held as they are changes nothing
  (`after_gives_of_mem`).
-/

namespace AttackMap.Store

/-- Giving the events of a batch one after the other. -/
def gives (batch : List Event) : List Request := batch.map .upsert

/-- The events of a batch of whose identities none is held. -/
def fresh (s : Store) (batch : List Event) : List Event := batch.filter fun e => !s.holds e.id

theorem placements_gives_cons (s : Store) (e : Event) (batch : List Event) :
    s.placements (gives (e :: batch)) =
      (e, (s.upsert e).2) :: (s.upsert e).1.placements (gives batch) :=
  rfl

theorem after_gives_cons (s : Store) (e : Event) (batch : List Event) :
    s.after (gives (e :: batch)) = (s.upsert e).1.after (gives batch) :=
  rfl

theorem after_gives_snoc (s : Store) (batch : List Event) (e : Event) :
    s.after (gives (batch ++ [e])) = ((s.after (gives batch)).upsert e).1 := by
  rw [gives, List.map_append, after_append]
  rfl

theorem map_fst_placements_gives (s : Store) (batch : List Event) :
    (s.placements (gives batch)).map Prod.fst = batch := by
  induction batch generalizing s with
  | nil => rfl
  | cons e batch ih => rw [placements_gives_cons, List.map_cons, ih]

/-- A batch inserts no more than there is in it. -/
theorem length_insertions_gives_le (s : Store) (batch : List Event) :
    (insertions (s.placements (gives batch))).length ≤ batch.length := by
  calc (insertions (s.placements (gives batch))).length
      ≤ (s.placements (gives batch)).length := List.length_filterMap_le _ _
    _ = ((s.placements (gives batch)).map Prod.fst).length := (List.length_map _).symm
    _ = batch.length := by rw [map_fst_placements_gives]

/-! ## What is held after a batch -/

theorem map_id_upsert_of_holds {s : Store} {e : Event} (h : s.holds e.id = true) :
    (s.upsert e).1.events.map (·.id) = s.events.map (·.id) := by
  rw [events_upsert_of_holds h, map_id_replaceFirst]

/-- What is held after an event was given was held before, or is that event. -/
theorem mem_ids_upsert {s : Store} {e : Event} {id : EventId}
    (h : id ∈ (s.upsert e).1.events.map (·.id)) : id ∈ s.events.map (·.id) ∨ id = e.id := by
  cases held : s.holds e.id with
  | true => exact .inl (map_id_upsert_of_holds held ▸ h)
  | false =>
    rw [map_id_upsert_of_new held] at h
    rcases List.mem_append.mp (List.mem_of_mem_drop h) with h | h
    · exact .inl h
    · exact .inr (List.mem_singleton.mp h)

theorem mem_ids_after_gives {s : Store} {batch : List Event} {id : EventId}
    (h : id ∈ (s.after (gives batch)).events.map (·.id)) :
    id ∈ s.events.map (·.id) ∨ id ∈ batch.map (·.id) := by
  induction batch generalizing s with
  | nil => exact .inl h
  | cons e batch ih =>
    rcases ih h with h | h
    · rcases mem_ids_upsert h with h | rfl
      · exact .inl h
      · exact .inr List.mem_cons_self
    · exact .inr (List.mem_cons_of_mem _ h)

/-- The last of a list are still there when few enough stand before them. -/
theorem mem_rtake_append {α : Type} {n : Nat} {xs ys : List α} (few : ys.length ≤ n) {y : α}
    (h : y ∈ ys) : y ∈ (xs ++ ys).rtake n := by
  rw [List.rtake, List.drop_append, List.length_append]
  refine List.mem_append_right _ ?_
  rw [show xs.length + ys.length - n - xs.length = 0 by omega]
  exact h

/-- What the end of a record inserts is held, if it is no more than there is
room for. -/
theorem Recorded.holds_of_inserted {capacity : Nat} {record more : List (Event × Placed)}
    {s : Store} (h : Recorded capacity (record ++ more) s)
    (few : (insertions more).length ≤ capacity) {e : Event} (he : e ∈ insertions more) :
    s.holds e.id = true := by
  rw [holds_iff, h.arrivals, insertions_append, List.map_append]
  exact mem_rtake_append (by rwa [List.length_map]) (List.mem_map_of_mem he)

/-- What is held of a batch is held as the batch gave it. -/
theorem Recorded.mem_of_holds {capacity : Nat} {record : List (Event × Placed)} {s : Store}
    {batch : List Event} (h : Recorded capacity (record ++ s.placements (gives batch))
      (s.after (gives batch)))
    (distinct : (batch.map (·.id)).Nodup) {e : Event} (he : e ∈ batch)
    (held : (s.after (gives batch)).holds e.id = true) : e ∈ (s.after (gives batch)).events := by
  obtain ⟨x, hx, hid⟩ := List.mem_map.mp (holds_iff.mp held)
  have hlast := h.payloads x hx
  rw [latest, List.map_append, map_fst_placements_gives, List.reverse_append,
    List.find?_append] at hlast
  -- the batch itself has the identity, so the record before it is not asked
  have hfound : (batch.reverse.find? fun y => y.id = x.id).isSome = true :=
    List.find?_isSome.mpr ⟨e, List.mem_reverse.mpr he, by simp [hid]⟩
  obtain ⟨y, hy⟩ := Option.isSome_iff_exists.mp hfound
  rw [hy, Option.some_or, Option.some.injEq] at hlast
  have hmem : y ∈ batch := List.mem_reverse.mp (List.mem_of_find?_eq_some hy)
  have heq : x = e := by
    rw [← hlast] at hid
    exact hlast ▸ List.inj_on_of_nodup_map distinct hmem he hid
  exact heq ▸ hx

/-- An event that is held as it is given changes nothing. -/
theorem upsert_of_mem {s : Store} {e : Event} (nodup : (s.events.map (·.id)).Nodup)
    (h : e ∈ s.events) : s.upsert e = (s, .replaced) := by
  have held : s.holds e.id = true := holds_iff.mpr (List.mem_map_of_mem h)
  simp only [upsert, if_pos held, replaceFirst_self nodup h]

/-- A batch that is held as it is changes nothing and inserts nothing. -/
theorem after_gives_of_mem {s : Store} {batch : List Event}
    (nodup : (s.events.map (·.id)).Nodup) (h : ∀ e ∈ batch, e ∈ s.events) :
    s.after (gives batch) = s ∧ insertions (s.placements (gives batch)) = [] := by
  induction batch with
  | nil => exact ⟨rfl, rfl⟩
  | cons e batch ih =>
    have same := upsert_of_mem nodup (h e List.mem_cons_self)
    obtain ⟨hs, hi⟩ := ih fun x hx => h x (List.mem_cons_of_mem _ hx)
    rw [after_gives_cons, placements_gives_cons, same]
    exact ⟨hs, hi⟩

/-- A batch of which not everything is held inserts something that was not. -/
theorem holds_or_exists_inserted (s : Store) (batch : List Event) :
    (∀ e ∈ batch, s.holds e.id = true) ∨
      ∃ f ∈ insertions (s.placements (gives batch)), s.holds f.id = false := by
  induction batch generalizing s with
  | nil => exact .inl fun _ h => nomatch h
  | cons e batch ih =>
    rw [placements_gives_cons]
    cases held : s.holds e.id with
    | false =>
      rw [placed_upsert_of_new held]
      exact .inr ⟨e, List.mem_cons_self, held⟩
    | true =>
      -- a replacement leaves the identities as they are
      have same : ∀ id, (s.upsert e).1.holds id = s.holds id := fun id =>
        Bool.eq_iff_iff.mpr (by rw [holds_iff, holds_iff, map_id_upsert_of_holds held])
      rw [placed_upsert_of_holds held]
      rcases ih (s.upsert e).1 with h | ⟨f, hf, hnew⟩
      · refine .inl fun x hx => ?_
        rcases List.mem_cons.mp hx with rfl | hx
        · exact held
        · exact same x.id ▸ h x hx
      · exact .inr ⟨f, hf, same f.id ▸ hnew⟩

/-! ## A batch that keeps what it replaces -/

@[simp] theorem capacity_after_gives (s : Store) (batch : List Event) :
    (s.after (gives batch)).capacity = s.capacity := by
  induction batch generalizing s with
  | nil => rfl
  | cons e batch ih => rw [after_gives_cons, ih, capacity_upsert]

/-- What stands behind the part of a list that is cut off is still there. -/
theorem mem_rtake_of_notMem_take {α : Type} {n k : Nat} {xs ys : List α}
    (few : xs.length + ys.length ≤ n + k) {x : α} (h : x ∈ xs) (late : x ∉ xs.take k) :
    x ∈ (xs ++ ys).rtake n := by
  have hdrop : x ∈ xs.drop k := by
    rw [← List.take_append_drop k xs] at h
    exact (List.mem_append.mp h).resolve_left late
  rw [List.rtake, List.drop_append, List.length_append]
  refine List.mem_append_left _ ?_
  obtain ⟨d, hd⟩ : ∃ d, k = xs.length + ys.length - n + d := ⟨_, (Nat.add_sub_of_le (by omega)).symm⟩
  rw [hd, ← List.drop_drop] at hdrop
  exact List.mem_of_mem_drop hdrop

/-- If no identity of a batch is among the oldest that its new events push
out, then these are all that is pushed out. The induction is on the last
event of the batch: what came before it pushed out no more than the whole
batch will. -/
theorem map_id_after_gives {s : Store} {k : Nat} {batch : List Event}
    (few : s.events.length + (s.fresh batch).length ≤ s.capacity + k)
    (safe : ∀ e ∈ batch, e.id ∉ (s.events.map (·.id)).take k)
    (distinct : (batch.map (·.id)).Nodup) :
    (s.after (gives batch)).events.map (·.id) =
      (s.events.map (·.id) ++ (s.fresh batch).map (·.id)).rtake s.capacity := by
  induction batch using List.reverseRecOn with
  | nil =>
    have : s.events.length - s.capacity = 0 := Nat.sub_eq_zero_of_le s.length_le
    simp [gives, after, fresh, List.rtake, this]
  | append_singleton batch e ih =>
    rw [List.map_append, List.nodup_append] at distinct
    obtain ⟨hdistinct, -, hne⟩ := distinct
    have hfresh : s.fresh (batch ++ [e]) = s.fresh batch ++ s.fresh [e] := List.filter_append _ _
    rw [hfresh, List.length_append] at few
    have held := ih (by omega) (fun x hx => safe x (List.mem_append_left _ hx)) hdistinct
    rw [after_gives_snoc, hfresh]
    cases hs : s.holds e.id with
    | true =>
      -- the old place of `e` is still there
      have hnone : s.fresh [e] = [] := by simp [fresh, hs]
      have hstill : (s.after (gives batch)).holds e.id = true := by
        rw [holds_iff, held]
        exact mem_rtake_of_notMem_take (by simpa using (by omega)) (holds_iff.mp hs)
          (safe e (by simp))
      rw [hnone, List.append_nil, map_id_upsert_of_holds hstill, held]
    | false =>
      have hone : s.fresh [e] = [e] := by simp [fresh, hs]
      have hnew : (s.after (gives batch)).holds e.id = false := by
        rw [Bool.eq_false_iff]
        intro h
        rcases mem_ids_after_gives (holds_iff.mp h) with h | h
        · rw [holds_iff.mpr h] at hs
          cases hs
        · exact hne _ h _ (by simp) rfl
      rw [hone, map_id_upsert_of_new hnew, held, capacity_after_gives,
        rtake_rtake_append s.capacity_pos, List.map_append, List.append_assoc]
      rfl

/-- Then all of the batch is held in the end. -/
theorem holds_after_gives {s : Store} {k : Nat} {batch : List Event}
    (few : s.events.length + (s.fresh batch).length ≤ s.capacity + k)
    (safe : ∀ e ∈ batch, e.id ∉ (s.events.map (·.id)).take k)
    (distinct : (batch.map (·.id)).Nodup) (fits : batch.length ≤ s.capacity) {e : Event}
    (he : e ∈ batch) : (s.after (gives batch)).holds e.id = true := by
  rw [holds_iff, map_id_after_gives few safe distinct]
  cases hs : s.holds e.id with
  | true =>
    exact mem_rtake_of_notMem_take (by simpa using few) (holds_iff.mp hs) (safe e he)
  | false =>
    have hmem : e ∈ s.fresh batch := List.mem_filter.mpr ⟨he, by rw [hs]; rfl⟩
    refine mem_rtake_append ?_ (List.mem_map_of_mem hmem)
    rw [List.length_map]
    exact (List.length_filter_le _ _).trans fits

end AttackMap.Store
