import AttackMap.Client
import AttackMap.Proofs.Liveness.History
import AttackMap.Proofs.Store.Batch

/-!
# The parts of a client

A client is asked for many things in any order (`Operation`), and each of
its parts attends to some of them only. What a run leaves in a part is what
the things for that part leave there by themselves, in their order
(`parts_after`):

* the verdict on the stream comes of statuses, heartbeats and polls;
* the directive is the last one ordered, and the aggregate the last to come;
* the events held and the count of those pushed out come of the events that
  arrive, and it makes no difference whether in messages or in batches;
* the filter is the last one set.

So two runs that differ in how these are mixed end alike, and a server can
send events, aggregates and batches as it likes: without heartbeats it does
not look alive.

One lemma carries all five: if each operation does to a part what the things
for that part do, then so does a run (`part_after`).
-/

namespace AttackMap

/-! ## Events, whatever the aggregate -/

namespace Store

/-- A store with another aggregate, or with none. -/
def bearing (s : Store) (a : Option Aggregate) : Store := { s with aggregate := a }

theorem upsert_bearing (s : Store) (a : Option Aggregate) (e : Event) :
    ((s.bearing a).upsert e).1 = (s.upsert e).1.bearing a := by
  have same : (s.bearing a).holds e.id = s.holds e.id := rfl
  unfold upsert
  rw [same]
  split <;> rfl

theorem aggregate_upsert (s : Store) (e : Event) : (s.upsert e).1.aggregate = s.aggregate := by
  unfold upsert
  split <;> rfl

theorem after_gives_eq_foldl (s : Store) (events : List Event) :
    s.after (gives events) = events.foldl (fun s e => (s.upsert e).1) s := by
  rw [after, gives, List.foldl_map]
  rfl

/-- Events are placed without regard to the aggregate. -/
theorem after_gives_bearing (s : Store) (a : Option Aggregate) (events : List Event) :
    (s.bearing a).after (gives events) = (s.after (gives events)).bearing a := by
  induction events generalizing s with
  | nil => rfl
  | cons e events ih => rw [after_gives_cons, after_gives_cons, upsert_bearing, ih]

theorem aggregate_after_gives (s : Store) (events : List Event) :
    (s.after (gives events)).aggregate = s.aggregate := by
  induction events generalizing s with
  | nil => rfl
  | cons e events ih => rw [after_gives_cons, ih, aggregate_upsert]

end Store

namespace Client

open Store (gives)

/-! ## Operations -/

/-- What a client is told or asked for. -/
inductive Operation where
  | status (s : TransportStatus)
  | message (m : Inbound) (now : Millis)
  | batch (events : List Event)
  | poll (now : Millis)
  | setFilter (f : Filter)
  | report (now : Millis) (malformed : Tally)
  | draw (now : Millis)
  | query (now : Millis)

/-- The client once it has done one thing. -/
def perform (c : Client) : Operation → Client
  | .status s => c.onStatus s
  | .message m now => c.onMessage m now
  | .batch events => (c.onBatch events).1
  | .poll now => c.poll now
  | .setFilter f => c.setFilter f
  | .report now malformed => (c.report now malformed).1
  | .draw now => (c.draw now : Client × Frame Float).1
  | .query _ => c

/-- The client after operations. -/
def after (c : Client) (ops : List Operation) : Client := ops.foldl perform c

theorem after_append (c : Client) (ops more : List Operation) :
    c.after (ops ++ more) = (c.after ops).after more :=
  List.foldl_append

namespace Operation

/-! ## What is in an operation for each part -/

/-- For the verdict: statuses, heartbeats and polls. -/
def notices : Operation → List Liveness.Notice
  | .status s => [.transport s]
  | .message (.heartbeat ..) now => [.heartbeat now]
  | .poll now => [.poll now]
  | _ => []

/-- For the directive: mode messages, a reason without text being none. -/
def directives : Operation → List Directive
  | .message (.mode _ mode reason) _ => [⟨mode, if reason = "" then none else some reason⟩]
  | _ => []

/-- For the aggregate: aggregate messages. -/
def aggregates : Operation → List Aggregate
  | .message (.aggregate _ _ a) _ => [a]
  | _ => []

/-- For the events: event messages, and batches event by event. -/
def arrivals : Operation → List Event
  | .message (.event _ _ e) _ => [e]
  | .batch events => events
  | _ => []

/-- For the filter. -/
def filters : Operation → List Filter
  | .setFilter f => [f]
  | _ => []

/-- Whether an operation only brings data: an event, an aggregate or a batch. -/
def isTraffic : Operation → Bool
  | .message (.event ..) _ | .message (.aggregate ..) _ | .batch _ => true
  | _ => false

/-- There is nothing about the stream in traffic. -/
theorem notices_of_isTraffic {op : Operation} (traffic : op.isTraffic = true) :
    op.notices = [] := by
  cases op with
  | message m now =>
    cases m with
    | event | aggregate => rfl
    | heartbeat | mode => cases traffic
  | batch events => rfl
  | _ => cases traffic

/-- Leaving the traffic out of a run leaves out none of its notices. -/
theorem flatMap_notices_filter (ops : List Operation) :
    (ops.filter (!·.isTraffic)).flatMap notices = ops.flatMap notices := by
  induction ops with
  | nil => rfl
  | cons op ops ih =>
    cases traffic : op.isTraffic with
    | true =>
      rw [List.filter_cons_of_neg (by simp [traffic]), ih, List.flatMap_cons,
        notices_of_isTraffic traffic, List.nil_append]
    | false =>
      rw [List.filter_cons_of_pos (by simp [traffic]), List.flatMap_cons, ih, List.flatMap_cons]

end Operation

open Operation

/-! ## A part by itself -/

/-- **A part of a run.** If every operation does to a part what the things
for that part do one by one, a run does to it what all of these do. -/
theorem part_after {α β : Type} (part : Client → α) (things : Operation → List β)
    (take : α → β → α) (one : ∀ c op, part (c.perform op) = (things op).foldl take (part c))
    (c : Client) (ops : List Operation) :
    part (c.after ops) = (ops.flatMap things).foldl take (part c) := by
  induction ops generalizing c with
  | nil => rfl
  | cons op ops ih =>
    rw [List.flatMap_cons, List.foldl_append, ← one c op]
    exact ih (c.perform op)

/-- What only ever takes the latest has the last. -/
theorem foldl_latest {α : Type} (xs : List α) (a : α) :
    xs.foldl (fun _ x => x) a = xs.getLastD a := by
  induction xs generalizing a with
  | nil => rfl
  | cons x xs ih => rw [List.foldl_cons, ih, List.getLastD_cons]

/-- A batch changes the store and the load, event by event, and nothing else. -/
theorem onBatch_fst (c : Client) (events : List Event) :
    (c.onBatch events).1 = { c with
      store := c.store.after (gives events)
      load := events.foldl (fun l _ => l.onEvent) c.load } := by
  induction events generalizing c with
  | nil => rfl
  | cons e events ih => exact ih (c.onEvent e).1

theorem liveness_after (c : Client) (ops : List Operation) :
    (c.after ops).liveness = c.liveness.after (ops.flatMap notices) := by
  apply part_after Client.liveness notices (fun l n => (l.hear n).1)
  intro c op
  cases op with
  | message m now => cases m <;> rfl
  | batch events => rw [perform, onBatch_fst]; rfl
  | _ => rfl

theorem directive_after (c : Client) (ops : List Operation) :
    (c.after ops).directive = (ops.flatMap directives).getLastD c.directive := by
  rw [← foldl_latest]
  apply part_after Client.directive directives (fun _ d => d)
  intro c op
  cases op with
  | message m now =>
    cases m with
    | mode t mode reason =>
      simp only [perform, onMessage, Directive.order, String.isEmpty_iff]
      rfl
    | _ => rfl
  | batch events => rw [perform, onBatch_fst]; rfl
  | _ => rfl

theorem aggregate_after (c : Client) (ops : List Operation) :
    (c.after ops).store.aggregate =
      ((ops.flatMap aggregates).map some).getLastD c.store.aggregate := by
  rw [← foldl_latest, List.foldl_map]
  apply part_after (·.store.aggregate) aggregates (fun _ a => some a)
  intro c op
  cases op with
  | message m now =>
    cases m with
    | event t seq e => exact Store.aggregate_upsert c.store e
    | _ => rfl
  | batch events => rw [perform, onBatch_fst]; exact Store.aggregate_after_gives c.store events
  | _ => rfl

theorem filter_after (c : Client) (ops : List Operation) :
    (c.after ops).filter = (ops.flatMap filters).getLastD c.filter := by
  rw [← foldl_latest]
  apply part_after Client.filter filters (fun _ f => f)
  intro c op
  cases op with
  | message m now => cases m <;> rfl
  | batch events => rw [perform, onBatch_fst]; rfl
  | _ => rfl

/-- The store but for its aggregate. -/
theorem bearing_after (c : Client) (ops : List Operation) :
    (c.after ops).store.bearing none =
      (c.store.after (gives (ops.flatMap arrivals))).bearing none := by
  rw [← Store.after_gives_bearing, Store.after_gives_eq_foldl]
  apply part_after (·.store.bearing none) arrivals (fun s e => (s.upsert e).1)
  intro c op
  cases op with
  | message m now =>
    cases m with
    | event t seq e => exact (Store.upsert_bearing c.store none e).symm
    | _ => rfl
  | batch events =>
    rw [perform, onBatch_fst]
    exact (Store.after_gives_bearing ..).symm.trans (Store.after_gives_eq_foldl ..)
  | _ => rfl

/-- The store of a run is that of its arrivals, with the aggregate of the run. -/
theorem store_after (c : Client) (ops : List Operation) :
    (c.after ops).store =
      (c.store.after (gives (ops.flatMap arrivals))).bearing (c.after ops).store.aggregate := by
  have same := congrArg (fun s : Store => s.bearing (c.after ops).store.aggregate)
    (bearing_after c ops)
  exact same

theorem events_after (c : Client) (ops : List Operation) :
    (c.after ops).store.events = (c.store.after (gives (ops.flatMap arrivals))).events := by
  rw [store_after]
  rfl

theorem evicted_after (c : Client) (ops : List Operation) :
    (c.after ops).store.evicted = (c.store.after (gives (ops.flatMap arrivals))).evicted := by
  rw [store_after]
  rfl

/-! ## All parts -/

/-- Two clients with the same verdict, directive, aggregate, events and filter. -/
structure SameParts (c d : Client) : Prop where
  liveness : c.liveness = d.liveness
  directive : c.directive = d.directive
  aggregate : c.store.aggregate = d.store.aggregate
  events : c.store.events = d.store.events
  evicted : c.store.evicted = d.store.evicted
  filter : c.filter = d.filter

/-- Two runs in which each part is given the same things in the same order. -/
structure SameThings (ops ops' : List Operation) : Prop where
  notices : ops.flatMap notices = ops'.flatMap notices
  directives : ops.flatMap directives = ops'.flatMap directives
  aggregates : ops.flatMap aggregates = ops'.flatMap aggregates
  arrivals : ops.flatMap arrivals = ops'.flatMap arrivals
  filters : ops.flatMap filters = ops'.flatMap filters

/-- Runs that differ in how the things for the parts are mixed end alike. -/
theorem sameParts_after (c : Client) {ops ops' : List Operation} (same : SameThings ops ops') :
    SameParts (c.after ops) (c.after ops') where
  liveness := by rw [liveness_after, liveness_after, same.notices]
  directive := by rw [directive_after, directive_after, same.directives]
  aggregate := by rw [aggregate_after, aggregate_after, same.aggregates]
  events := by rw [events_after, events_after, same.arrivals]
  evicted := by rw [evicted_after, evicted_after, same.arrivals]
  filter := by rw [filter_after, filter_after, same.filters]

/-- **The parts of a run**, whatever the operations, their order and their
times. Each part is what the things for it make of it by themselves: the
verdict on the stream what a verdict makes of the notices; the directive,
the aggregate and the filter the last there is; the events held and the
count of those pushed out what a store makes of the arrivals. Runs that mix
the same things differently end with the same parts, and runs that differ
in traffic alone end with the same verdict. -/
theorem parts_after (c : Client) (ops : List Operation) :
    let last := c.after ops
    last.liveness = c.liveness.after (ops.flatMap notices) ∧
    last.directive = (ops.flatMap directives).getLastD c.directive ∧
    last.store.aggregate = ((ops.flatMap aggregates).map some).getLastD c.store.aggregate ∧
    last.store.events = (c.store.after (gives (ops.flatMap arrivals))).events ∧
    last.store.evicted = (c.store.after (gives (ops.flatMap arrivals))).evicted ∧
    last.filter = (ops.flatMap filters).getLastD c.filter ∧
    (∀ ops', SameThings ops ops' → SameParts last (c.after ops')) ∧
    ∀ ops', ops.filter (!·.isTraffic) = ops'.filter (!·.isTraffic) →
      last.liveness = (c.after ops').liveness := by
  intro last
  refine ⟨liveness_after c ops, directive_after c ops, aggregate_after c ops, events_after c ops,
    evicted_after c ops, filter_after c ops, ?_, ?_⟩
  · intro ops' same
    exact sameParts_after c same
  intro ops' same
  calc last.liveness
    _ = c.liveness.after (ops.flatMap notices) := liveness_after c ops
    _ = c.liveness.after ((ops.filter (!·.isTraffic)).flatMap notices) := by
      rw [flatMap_notices_filter]
    _ = c.liveness.after (ops'.flatMap notices) := by rw [same, flatMap_notices_filter]
    _ = (c.after ops').liveness := (liveness_after c ops').symm

end Client

end AttackMap
