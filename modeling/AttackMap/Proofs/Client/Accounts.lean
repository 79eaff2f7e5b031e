import AttackMap.Proofs.Client.Parts

/-!
# The client's accounts

Of the events that come to a client some replace what is held, some are
held, and some have been pushed out again; there is no fourth kind
(`Balanced`). What the client tells the server about its load rests on
this: the events it calls dropped are those pushed out, together with what
could not be read at all, and those it calls queued are all that have come
since the last frame was drawn, replacements included.

The books are kept by the record of placements (`placements`). The client's
own counters are words that stop at a ceiling, so each is the lesser of a
number in the books and that ceiling; a counter below the ceiling is the
number itself.
-/

namespace AttackMap

/-! ## One placement -/

namespace Store

/-- What an event can do to the number of events held and of those pushed out. -/
inductive Counts (s t : Store) (e : Event) : Placed → Prop where
  | replaced (held : s.holds e.id = true) (size : t.size = s.size)
    (evicted : t.evicted = s.evicted) : Counts s t e .replaced
  | inserted (n : Nat) (new : s.holds e.id = false) (size : t.size + n = s.size + 1)
    (evicted : t.evicted.toNat = min (s.evicted.toNat + n) Tally.greatest) :
    Counts s t e (.inserted n)

theorem counts_upsert (s : Store) (e : Event) : Counts s (s.upsert e).1 e (s.upsert e).2 := by
  cases held : s.holds e.id with
  | true =>
    rw [placed_upsert_of_holds held]
    apply Counts.replaced held
    · rw [size, events_upsert_of_holds held, length_replaceFirst, size]
    · rw [upsert, if_pos held]
  | false =>
    have few := s.overflow_le_one
    rw [placed_upsert_of_new held]
    apply Counts.inserted s.overflow held
    · rw [size, events_upsert_of_new held, List.length_drop, List.length_append,
        List.length_singleton, size]
      omega
    · have counted : (Tally.nearest s.overflow).toNat = s.overflow := by
        rw [Tally.toNat_nearest, Tally.greatest]
        omega
      rw [upsert, held, if_neg Bool.false_ne_true, append, Tally.toNat_plus, counted]

end Store

namespace Client

open Operation

/-- A client that knows nothing yet and takes a heartbeat to be too old
after a span of time. -/
def startWithin (staleAfter : Span) (filter : Filter) : Client :=
  ⟨.empty, .startWithin staleAfter, .initial, .start, filter⟩

/-! ## The books -/

/-- What happens to events that come one after the other. -/
def placed (c : Client) : List Event → List Placed
  | [] => []
  | e :: rest => (c.onEvent e).2 :: (c.onEvent e).1.placed rest

/-- What happens to the events of a run. -/
def placements (c : Client) : List Operation → List Placed
  | [] => []
  | op :: rest => c.placed op.arrivals ++ (c.perform op).placements rest

/-- How many events were pushed out by those that came. -/
def pushedOut : List Placed → Nat
  | [] => 0
  | .replaced :: rest => pushedOut rest
  | .inserted n :: rest => n + pushedOut rest

/-- How many events of a batch are not held when their turn comes. -/
def newcomers (c : Client) : List Event → Nat
  | [] => 0
  | e :: rest => (c.onEvent e).1.newcomers rest + if c.store.holds e.id then 0 else 1

/-- Whether an operation draws a frame. -/
def Operation.isDraw : Operation → Bool
  | .draw _ => true
  | _ => false

/-- How many events have come since the last frame was drawn. -/
def backlog (ops : List Operation) : Nat :=
  ((ops.rtakeWhile (!·.isDraw)).flatMap arrivals).length

theorem pushedOut_append (record more : List Placed) :
    pushedOut (record ++ more) = pushedOut record + pushedOut more := by
  induction record with
  | nil => exact (Nat.zero_add _).symm
  | cons p record ih =>
    cases p with
    | replaced => exact ih
    | inserted n => rw [List.cons_append, pushedOut, pushedOut, ih, Nat.add_assoc]

theorem length_placed (c : Client) (events : List Event) :
    (c.placed events).length = events.length := by
  induction events generalizing c with
  | nil => rfl
  | cons e rest ih => rw [placed, List.length_cons, ih, List.length_cons]

theorem length_placements (c : Client) (ops : List Operation) :
    (c.placements ops).length = (ops.flatMap arrivals).length := by
  induction ops generalizing c with
  | nil => rfl
  | cons op rest ih =>
    rw [placements, List.length_append, length_placed, ih, List.flatMap_cons, List.length_append]

/-! ## The balance -/

/-- The record of placements accounts for every event that came: it replaced
another, is held, or was pushed out. -/
structure Balanced (record : List Placed) (c : Client) : Prop where
  events : record.length = record.count .replaced + c.store.size + pushedOut record
  evicted : c.store.evicted.toNat = min (pushedOut record) Tally.greatest

namespace Balanced

variable {record : List Placed} {c : Client}

theorem start (staleAfter : Span) (filter : Filter) : Balanced [] (startWithin staleAfter filter) :=
  ⟨rfl, rfl⟩

theorem event (h : Balanced record c) (e : Event) :
    Balanced (record ++ [(c.onEvent e).2]) (c.onEvent e).1 := by
  have events := h.events
  have evicted := h.evicted
  have counts : Store.Counts c.store (c.onEvent e).1.store e (c.onEvent e).2 :=
    Store.counts_upsert c.store e
  generalize (c.onEvent e).2 = p at counts
  cases counts with
  | replaced held size same =>
    have none : pushedOut [.replaced] = 0 := rfl
    constructor
    · rw [List.length_append, List.count_append, pushedOut_append, none, size]
      simp only [List.length_singleton, List.count_singleton_self]
      omega
    · rw [pushedOut_append, none, same, evicted, Nat.add_zero]
  | inserted n new size counted =>
    have some : pushedOut [.inserted n] = n := Nat.add_zero n
    constructor
    · rw [List.length_append, List.count_append, pushedOut_append, some]
      simp only [List.length_singleton, List.count_singleton, reduceCtorEq, if_false, beq_iff_eq]
      omega
    · rw [pushedOut_append, some, counted, evicted]
      omega

theorem batch (h : Balanced record c) (events : List Event) :
    Balanced (record ++ c.placed events) (c.onBatch events).1 := by
  induction events generalizing record c with
  | nil =>
    rw [placed, List.append_nil]
    exact h
  | cons e rest ih =>
    rw [placed, List.append_cons]
    exact ih (h.event e)

/-- But for events and batches no operation touches the accounts. -/
theorem perform (h : Balanced record c) (op : Operation) :
    Balanced (record ++ c.placed op.arrivals) (c.perform op) := by
  cases op with
  | message m now =>
    cases m with
    | event t seq e => exact h.event e
    | _ =>
      show Balanced (record ++ []) _
      rw [List.append_nil]
      exact ⟨h.events, h.evicted⟩
  | batch events => exact h.batch events
  | _ =>
    show Balanced (record ++ []) _
    rw [List.append_nil]
    exact ⟨h.events, h.evicted⟩

theorem after (h : Balanced record c) (ops : List Operation) :
    Balanced (record ++ c.placements ops) (c.after ops) := by
  induction ops generalizing record c with
  | nil =>
    rw [placements, List.append_nil]
    exact h
  | cons op rest ih =>
    rw [placements, ← List.append_assoc]
    exact ih (h.perform op)

end Balanced

/-! ## Batches -/

/-- A batch tells how many of its events were not held. -/
theorem onBatch_snd (c : Client) (events : List Event) :
    (c.onBatch events).2 = c.newcomers events := by
  induction events generalizing c with
  | nil => rfl
  | cons e rest ih =>
    have counts : Store.Counts c.store (c.onEvent e).1.store e (c.onEvent e).2 :=
      Store.counts_upsert c.store e
    have later := ih (c.onEvent e).1
    rw [newcomers, ← later, onBatch]
    dsimp only
    generalize (c.onEvent e).2 = p at counts
    cases counts with
    | replaced held => rw [if_pos held]; rfl
    | inserted n new => rw [new]; rfl

/-- Every event of a batch replaces another or is new. -/
theorem newcomers_add_count (c : Client) (events : List Event) :
    c.newcomers events + (c.placed events).count .replaced = events.length := by
  induction events generalizing c with
  | nil => rfl
  | cons e rest ih =>
    have counts : Store.Counts c.store (c.onEvent e).1.store e (c.onEvent e).2 :=
      Store.counts_upsert c.store e
    have later := ih (c.onEvent e).1
    rw [newcomers, placed, List.count_cons, List.length_cons]
    generalize (c.onEvent e).2 = p at counts
    cases counts with
    | replaced held => rw [if_pos held, beq_self_eq_true, if_pos rfl]; omega
    | inserted n new =>
      have other : (Placed.inserted n == .replaced) = false := rfl
      rw [new, other, if_neg Bool.false_ne_true, if_neg Bool.false_ne_true]
      omega

/-! ## The queue -/

theorem pending_onBatch (c : Client) (events : List Event) :
    (c.onBatch events).1.load.pending.toNat =
      min (c.load.pending.toNat + events.length) Tally.greatest := by
  induction events generalizing c with
  | nil =>
    have := c.load.pending.toNat_lt
    show c.load.pending.toNat = min c.load.pending.toNat Tally.greatest
    rw [Tally.greatest]
    omega
  | cons e rest ih =>
    have next : (c.onEvent e).1.load.pending.toNat =
        min (c.load.pending.toNat + 1) Tally.greatest := Tally.toNat_next c.load.pending
    have later := ih (c.onEvent e).1
    rw [next] at later
    show ((c.onEvent e).1.onBatch rest).1.load.pending.toNat = _
    rw [later, List.length_cons]
    omega

/-- To close a window of measurement does nothing to the queue. -/
theorem pending_close (l : Load) (now : Millis) : (l.close now).pending = l.pending := by
  unfold Load.close
  split
  · rfl
  · dsimp only
    split <;> rfl

theorem pending_perform (c : Client) (op : Operation) :
    (c.perform op).load.pending.toNat =
      if op.isDraw then 0
      else min (c.load.pending.toNat + op.arrivals.length) Tally.greatest := by
  have kept : c.load.pending.toNat = min (c.load.pending.toNat + 0) Tally.greatest :=
    pending_onBatch c []
  cases op with
  | message m now =>
    cases m with
    | event t seq e => exact pending_onBatch c [e]
    | _ => exact kept
  | batch events => exact pending_onBatch c events
  | draw now => rfl
  | report now malformed => exact (congrArg UInt64.toNat (pending_close c.load now)).trans kept
  | _ => exact kept

/-- A frame clears the backlog, and anything else adds to it what it brings. -/
theorem backlog_snoc (ops : List Operation) (op : Operation) :
    backlog (ops ++ [op]) = if op.isDraw then 0 else backlog ops + op.arrivals.length := by
  rw [backlog, List.rtakeWhile_concat]
  cases op.isDraw with
  | true => rfl
  | false =>
    simp only [Bool.not_false, if_true, Bool.false_eq_true, if_false, List.flatMap_append,
      List.length_append, List.flatMap_cons, List.flatMap_nil, List.append_nil, backlog]

/-- What is queued after a run: what has come since the last frame. The
induction is on the last operation, since a frame empties the queue. -/
theorem pending_after (staleAfter : Span) (filter : Filter) (ops : List Operation) :
    ((startWithin staleAfter filter).after ops).load.pending.toNat =
      min (backlog ops) Tally.greatest := by
  induction ops using List.reverseRecOn with
  | nil => rfl
  | append_singleton ops op ih =>
    rw [after_append]
    show (((startWithin staleAfter filter).after ops).perform op).load.pending.toNat = _
    rw [pending_perform, ih, backlog_snoc]
    split <;> omega

/-! ## The accounts -/

/-- What is sent on a tick tells the queue and the losses as they stand. -/
theorem report_snd (c : Client) (now : Millis) (malformed : Tally) :
    ∃ fps, (c.report now malformed).2 =
      [.telemetry fps c.load.pending (c.dropped malformed), c.filter.declare] := by
  refine ⟨(c.load.close now).last.elim Load.nominalRate FrameWindow.rate, ?_⟩
  rw [← pending_close c.load now]
  rfl

/-- **The accounts of a run**, whatever the operations, their order and
their times.

* Every event that came replaced another, is held, or was pushed out; the
  count of those pushed out is theirs, up to the ceiling of the counter.
* A batch tells how many of its events were not held when their turn came,
  and by so many those held and those pushed out are more than before,
  unless the counter has reached its ceiling.
* A report tells as dropped those pushed out and the malformed together, and
  as queued those that came since the last frame, each up to the ceiling.
* As long as the malformed do not become fewer, neither do the dropped. -/
theorem accounts_after (staleAfter : Span) (filter : Filter) (ops : List Operation) :
    let c := (startWithin staleAfter filter).after ops
    let record := (startWithin staleAfter filter).placements ops
    ((ops.flatMap arrivals).length =
        record.count .replaced + c.store.size + pushedOut record ∧
      c.store.evicted.toNat = min (pushedOut record) Tally.greatest) ∧
    (∀ batch, (c.onBatch batch).2 = c.newcomers batch ∧
      ((c.onBatch batch).1.store.evicted.toNat < Tally.greatest →
        (c.onBatch batch).1.store.size + (c.onBatch batch).1.store.evicted.toNat =
          c.store.size + c.store.evicted.toNat + (c.onBatch batch).2)) ∧
    (∀ now malformed, ∃ fps queued dropped,
      (c.report now malformed).2 = [.telemetry fps queued dropped, c.filter.declare] ∧
      queued.toNat = min (backlog ops) Tally.greatest ∧
      dropped.toNat = min (c.store.evicted.toNat + malformed.toNat) Tally.greatest) ∧
    ∀ more (malformed malformed' : Tally), malformed.toNat ≤ malformed'.toNat →
      (c.dropped malformed).toNat ≤ ((c.after more).dropped malformed').toNat := by
  intro c record
  have h : Balanced record c := (Balanced.start staleAfter filter).after ops
  refine ⟨⟨?_, h.evicted⟩, ?_, ?_, ?_⟩
  · rw [← length_placements (startWithin staleAfter filter) ops]
    exact h.events
  · intro batch
    refine ⟨onBatch_snd c batch, ?_⟩
    intro below
    have h' := h.batch batch
    have before := h.events
    have after := h'.events
    have evicted := h.evicted
    have evicted' := h'.evicted
    have told := newcomers_add_count c batch
    rw [List.length_append, length_placed, List.count_append] at after
    rw [pushedOut_append] at after evicted'
    rw [onBatch_snd]
    omega
  · intro now malformed
    obtain ⟨fps, told⟩ := report_snd c now malformed
    exact ⟨fps, _, _, told, pending_after staleAfter filter ops, Tally.toNat_plus _ _⟩
  · intro more malformed malformed' le
    have before := h.evicted
    have after := (h.after more).evicted
    rw [pushedOut_append] at after
    rw [dropped, dropped, Tally.toNat_plus, Tally.toNat_plus]
    omega

end Client

end AttackMap
