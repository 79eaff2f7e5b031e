import AttackMap.Client
import AttackMap.Proofs.Store.Batch

/-!
# The same batch twice

A resync brings events that the client may hold already, and the next one
may bring them again. The store goes by identity, so nothing is ever held
twice; but it keeps replaced events in their old places, and there they may
be pushed out by what is new in the same batch. Then the second batch
brings them back as new events and pushes others out in turn
(`onBatch_twice_brings_back`).

`onBatch_twice` says exactly when the second batch does nothing: when the
first has left all its events in the store. Only replaced events can fail
to be left there, and none does if none stood among the oldest that the new
ones push out. In particular a batch is harmless for which there is room,
and so is one of which nothing was held.
-/

namespace AttackMap.Client

open Store

/-- The store of a client after a batch. -/
theorem store_onBatch (c : Client) (batch : List Event) :
    (c.onBatch batch).1.store = c.store.after (gives batch) := by
  induction batch generalizing c with
  | nil => rfl
  | cons e batch ih =>
    rw [after_gives_cons]
    exact ih (c.onEvent e).1

/-- A batch is as new as the events that it inserts are many. -/
theorem count_onBatch (c : Client) (batch : List Event) :
    (c.onBatch batch).2 = (insertions (c.store.placements (gives batch))).length := by
  induction batch generalizing c with
  | nil => rfl
  | cons e batch ih =>
    have rest := ih (c.onEvent e).1
    rw [placements_gives_cons]
    simp only [onBatch, onEvent] at rest ⊢
    cases (c.store.upsert e).2 with
    | inserted n => exact congrArg (· + 1) rest
    | replaced => exact rest

/-- **A batch twice.** Let a store have come to be by any requests, and let
no two events of a batch share an identity nor be more than there is room
for. A second batch leaves the events as the first left them exactly when
all events of the batch are then held; it then changes nothing in the store
and inserts nothing. What the first batch inserts, it leaves held; and all
is held if no identity of the batch is among the oldest that its new events
push out. -/
theorem onBatch_twice (capacity : Nat) (rs : List Request) (c : Client) (batch : List Event)
    (reached : c.store = (withCapacity capacity).after rs)
    (distinct : (batch.map (·.id)).Nodup) (fits : batch.length ≤ max capacity 1) :
    let once := (c.onBatch batch).1
    let twice := once.onBatch batch
    let pushed := c.store.size + (c.store.fresh batch).length - max capacity 1
    (twice.1.store.events = once.store.events ↔ ∀ e ∈ batch, once.store.holds e.id = true) ∧
    ((∀ e ∈ batch, once.store.holds e.id = true) → twice.1.store = once.store ∧ twice.2 = 0) ∧
    (∀ e ∈ insertions (c.store.placements (gives batch)), once.store.holds e.id = true) ∧
    ((∀ e ∈ batch, e.id ∉ (c.store.events.map (·.id)).take pushed) →
      ∀ e ∈ batch, once.store.holds e.id = true) := by
  intro once twice pushed
  have hstart : Recorded (max capacity 1) ((withCapacity capacity).placements rs) c.store :=
    reached ▸ recorded_after capacity rs
  have honce : once.store = c.store.after (gives batch) := store_onBatch c batch
  have htwice : twice.1.store = once.store.after (gives batch) := store_onBatch once batch
  have first := hstart.after (gives batch)
  have second := first.after (gives batch)
  have few (s : Store) : (insertions (s.placements (gives batch))).length ≤ max capacity 1 :=
    (length_insertions_gives_le s batch).trans fits
  have nothing (held : ∀ e ∈ batch, once.store.holds e.id = true) :
      once.store.after (gives batch) = once.store ∧
        insertions (once.store.placements (gives batch)) = [] := by
    rw [honce] at held ⊢
    exact after_gives_of_mem first.nodup fun e he => first.mem_of_holds distinct he (held e he)
  refine ⟨⟨fun same => ?_, fun held => ?_⟩, fun held => ?_, fun e he => ?_, fun safe e he => ?_⟩
  · rcases holds_or_exists_inserted once.store batch with held | ⟨f, hf, hnew⟩
    · exact held
    · -- what the second batch inserts is held after it and was not before
      have hheld : twice.1.store.holds f.id = true := by
        rw [htwice, honce]
        exact second.holds_of_inserted (few _) (honce ▸ hf)
      rw [holds, same, ← holds, hnew] at hheld
      cases hheld
  · rw [htwice, (nothing held).1]
  · refine ⟨htwice.trans (nothing held).1, ?_⟩
    rw [show twice.2 = _ from count_onBatch once batch, (nothing held).2]
    rfl
  · rw [honce]
    exact first.holds_of_inserted (few _) he
  · rw [honce]
    have hcap := hstart.capacity_eq
    refine holds_after_gives (k := pushed) ?_ safe distinct (hcap ▸ fits) he
    rw [hcap, ← Store.size]
    omega

/-- An event of which only the identity counts. -/
def numbered (n : Nat) : Event where
  id := .ofNat n
  detected := ⟨0, 0, by decide, by decide, by decide⟩
  kind := .intrusion
  severity := 5
  volume := none
  src := .unknown
  dst := .unknown
  tags := []
  confidence := 0.5
  source := "test"
  real := true
  ttl := 10000
  expires := none
  isMajor := false
  seq := none
  serverTime := none

/-- A client with a store for two events that holds the first and the second. -/
def holdingTwo : Client :=
  { start 10000 .initial with store := (withCapacity 2).after (gives [numbered 1, numbered 2]) }

/-- A full store takes a batch twice as once if what it replaces is late
enough: the second event stays, the first is pushed out. -/
theorem onBatch_twice_late :
    ([numbered 2, numbered 3].map (·.id)).Nodup ∧ [numbered 2, numbered 3].length ≤ max 2 1 ∧
    let once := (holdingTwo.onBatch [numbered 2, numbered 3]).1
    once.store.events = [numbered 2, numbered 3] ∧
    (once.onBatch [numbered 2, numbered 3]).1.store = once.store ∧
    (once.onBatch [numbered 2, numbered 3]).2 = 0 := by
  have h := onBatch_twice 2 (gives [numbered 1, numbered 2]) holdingTwo [numbered 2, numbered 3]
    rfl (by decide) (by decide)
  exact ⟨by decide, by decide, rfl, h.2.1 (h.2.2.2 (by decide))⟩

/-- **A batch can bring back what it pushed out.** The store is full, the
batch replaces the oldest event and then pushes it out with a new one; the
second batch inserts it again and pushes out another. -/
theorem onBatch_twice_brings_back :
    let batch := [numbered 1, numbered 3]
    let once := (holdingTwo.onBatch batch).1
    let twice := once.onBatch batch
    (batch.map (·.id)).Nodup ∧ batch.length ≤ max 2 1 ∧
    once.store.events = [numbered 2, numbered 3] ∧
    twice.1.store.events = [numbered 3, numbered 1] ∧
    twice.1.store.events ≠ once.store.events ∧
    twice.2 = 1 ∧ twice.1.store.evicted = once.store.evicted.next := by
  refine ⟨by decide, by decide, rfl, rfl, ?_, rfl, by decide⟩
  intro same
  have hid := congrArg (List.map (·.id)) same
  revert hid
  decide

end AttackMap.Client
