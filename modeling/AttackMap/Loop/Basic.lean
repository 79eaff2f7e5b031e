import AttackMap.Client
import AttackMap.Control
import AttackMap.Resync

/-!
# The loop

One loop owns the client and gives it one thing at a time. Between turns
the surroundings add to what is pending (`Happening`); each turn takes the
first pending thing in a fixed order (`Loop.turn`):

1. a report being sent goes on, message by message;
2. the client is closed;
3. the session has an event;
4. a batch has come;
5. the filter was changed;
6. the clock of the reports, of the polls, of the frames, of the resync.

So no report is made, no frame drawn and no resync asked for while anything
that could change it is pending. A resync runs beside the loop; while one
runs no other is begun, and its batch waits in a short queue.

A session that is asked in vain keeps what it has consumed, and what it has
not consumed stays pending.
-/

namespace AttackMap

/-- The clocks of the loop. -/
inductive Clock where
  | report | poll | frame | resync
  deriving DecidableEq, Repr

/-- A resync that is not over. -/
inductive Fetch where
  /-- The answer is awaited. -/
  | asked (window : Window)
  /-- The events are there and wait for room in the queue. -/
  | delivering (events : List Event)

/-- The client and everything that is pending. -/
structure Loop where
  client : Client
  session : Session
  control : Control
  /-- Signals that the session has not consumed. -/
  signals : List Signal
  /-- Whether a clock has struck since it was last heeded. -/
  due : Clock → Bool
  resyncs : Bool
  fetch : Option Fetch
  /-- Batches that the client has not seen, the oldest first. -/
  batches : List (List Event)
  /-- What is left to send of a report. -/
  outbox : List Outbound
  finished : Bool

/-- What the surroundings do between turns. -/
inductive Happening where
  | signal (s : Signal)
  | call (c : Call)
  /-- A clock strikes. -/
  | strikes (c : Clock)
  /-- The answer to a resync has come. -/
  | fetched (answer : Except Resync.Refusal (List Event))
  /-- A batch is put into the queue, if there is one and there is room. -/
  | queued

/-- What a turn did. -/
inductive Deed (α : Type) where
  | idle
  | closed
  | heard (e : SessionEvent)
  | applied (events : List Event)
  | filtered (f : Filter)
  | reported (messages : List Outbound)
  /-- A message of a report is sent; none if there was no socket. -/
  | sent (text : Option String)
  /-- What was left of a report is not sent. -/
  | withheld
  | polled
  | drew (frame : Frame α) (view : View)
  | asked (window : Window)
  /-- A clock struck and there was nothing to do. -/
  | skipped (c : Clock)

namespace Loop

/-- How many batches may wait. -/
def queueLength : Nat := 2

/-- The loop at its start. All clocks strike at once. -/
def start (staleAfter : UInt64) (filter : Filter) (resyncs : Bool) : Loop where
  client := .start staleAfter filter
  session := .start
  control := .start filter
  signals := []
  due := fun _ => true
  resyncs
  fetch := none
  batches := []
  outbox := []
  finished := false

/-! ## Between turns -/

/-- What a happening adds to what is pending. -/
def happen (l : Loop) : Happening → Loop
  | .signal s => { l with signals := l.signals ++ [s] }
  | .call c => { l with control := l.control.call c }
  | .strikes c => { l with due := fun x => x = c || l.due x }
  | .fetched answer =>
    match l.fetch, answer with
    | some (.asked _), .ok events => { l with fetch := some (.delivering events) }
    | some (.asked _), .error _ => { l with fetch := none }
    | _, _ => l
  | .queued =>
    match l.fetch with
    | some (.delivering events) =>
      if l.batches.length < queueLength then
        { l with fetch := none, batches := l.batches ++ [events] }
      else l
    | _ => l

/-! ## Turns -/

/-- A clock is heeded. -/
def heed (l : Loop) (c : Clock) : Loop := { l with due := fun x => x ≠ c && l.due x }

/-- The loop ends: the session and the transport are closed, and a resync
that runs is given up. -/
def finish (l : Loop) : Loop :=
  { l with
    client := l.client.onStatus .closed
    session := l.session.close
    fetch := none
    finished := true }

variable {α : Type} [Scalar α]

/-- A turn on which no event, batch or change is pending: the first clock
that has struck. -/
def clockTurn (l : Loop) (now : Millis) : Loop × Deed α :=
  if l.due .report then
    let l := l.heed .report
    if l.session.isOpen then
      let (client, messages) := l.client.report now l.session.malformed
      ({ l with client, outbox := messages }, .reported messages)
    else (l, .skipped .report)
  else if l.due .poll then ({ l.heed .poll with client := l.client.poll now }, .polled)
  else if l.due .frame then
    let (client, frame) := l.client.draw now
    ({ l.heed .frame with client }, .drew frame client.view)
  else if l.resyncs && l.due .resync then
    let l := l.heed .resync
    if l.fetch.isSome then (l, .skipped .resync)
    else
      let window := l.client.filter.window
      ({ l with fetch := some (.asked window) }, .asked window)
  else (l, .idle)

/-- A turn on which the session has nothing to tell. -/
def innerTurn (l : Loop) (now : Millis) : Loop × Deed α :=
  match l.batches with
  | batch :: rest =>
    ({ l with client := (l.client.onBatch batch).1, batches := rest }, .applied batch)
  | [] =>
    if l.control.changed then
      let filter := l.control.filter
      ({ l with client := l.client.setFilter filter, control := l.control.taken }, .filtered filter)
    else l.clockTurn now

/-- One turn. -/
def turn (l : Loop) (now : Millis) : Loop × Deed α :=
  if l.finished then (l, .idle)
  else match l.outbox with
    | m :: rest =>
      if l.control.closed then ({ l with outbox := [] }, .withheld)
      else ({ l with outbox := rest }, .sent (l.session.send m))
    | [] =>
      if l.control.closed then (l.finish, .closed)
      else
        let (session, reply, signals) := l.session.next l.signals
        let l := { l with session, signals }
        match reply with
        | .finished => (l.finish, .closed)
        | .event e => ({ l with client := l.client.onSession e now }, .heard e)
        | .pending => l.innerTurn now

end Loop

end AttackMap
