import AttackMap.Directive
import AttackMap.Frame.Basic
import AttackMap.Liveness
import AttackMap.Session

/-!
# The client

Everything the client knows, in five parts that each kind of happening
touches one or two of: the events, the verdict on the stream, the server's
last directive, the load, and the filter. Nothing here waits or sends; the
loop that does is in `Loop`.
-/

namespace AttackMap

/-- What the client knows. -/
structure Client where
  store : Store
  liveness : Liveness
  directive : Directive
  load : Load
  filter : Filter

/-- The headline of an aggregate. -/
structure Headline where
  window : String
  count : UInt64
  eventsPerSecond : Float
  topKinds : List (String × UInt64)
  deriving DecidableEq

/-- The headline of an aggregate. -/
def Aggregate.headline (a : Aggregate) : Headline :=
  ⟨a.window, a.count, a.eventsPerSecond, a.topKinds⟩

/-- What is shown beside the map. -/
structure View where
  live : LiveState
  stream : StreamState
  mode : StreamMode
  reason : Option String
  /-- Events held, dead ones too. -/
  stored : Nat
  headline : Option Headline
  deriving DecidableEq

namespace Client

/-- A client that knows nothing yet. -/
def start (staleAfter : UInt64) (filter : Filter) : Client :=
  ⟨.empty, .start staleAfter, .initial, .start, filter⟩

/-! ## What happens to it -/

/-- The transport has a new status. -/
def onStatus (c : Client) (status : TransportStatus) : Client :=
  { c with liveness := c.liveness.onTransport status }

/-- An event has come, over the stream or in a batch. -/
def onEvent (c : Client) (e : Event) : Client × Placed :=
  let (store, placed) := c.store.upsert e
  ({ c with store, load := c.load.onEvent }, placed)

/-- A message has come. -/
def onMessage (c : Client) (m : Inbound) (now : Millis) : Client :=
  match m with
  | .heartbeat .. => { c with liveness := c.liveness.onHeartbeat now }
  | .mode _ mode reason => { c with directive := .order mode reason }
  | .event _ _ e => (c.onEvent e).1
  | .aggregate _ _ a => { c with store := c.store.setAggregate a }

/-- The session has told something. -/
def onSession (c : Client) (e : SessionEvent) (now : Millis) : Client :=
  match e with
  | .status status => c.onStatus status
  | .message m => c.onMessage m now

/-- A batch of events has come; also how many of them are new. -/
def onBatch (c : Client) : List Event → Client × Nat
  | [] => (c, 0)
  | e :: rest =>
    let (c, placed) := c.onEvent e
    let (c, count) := c.onBatch rest
    (c, match placed with
      | .inserted _ => count + 1
      | .replaced => count)

/-- Look at the age of the last heartbeat. -/
def poll (c : Client) (now : Millis) : Client := { c with liveness := c.liveness.poll now }

/-- Show something else. -/
def setFilter (c : Client) (f : Filter) : Client := { c with filter := f }

/-! ## What it gives -/

/-- How many events are lost: pushed out of the store, or malformed. -/
def dropped (c : Client) (malformed : Tally) : Tally := c.store.evicted.plus malformed

/-- What is sent on a tick. -/
def report (c : Client) (now : Millis) (malformed : Tally) : Client × List Outbound :=
  let (load, r) := c.load.sample now (c.dropped malformed)
  ({ c with load }, reports c.filter r)

/-- The frame of a moment, counted toward the load. -/
def draw {α : Type} [Scalar α] (c : Client) (now : Millis) : Client × Frame α :=
  ({ c with load := c.load.onFrame now }, .of c.store.snapshot c.filter now)

def view (c : Client) : View :=
  ⟨c.liveness.state, c.liveness.stream, c.directive.mode, c.directive.reason, c.store.size,
    c.store.aggregate.map Aggregate.headline⟩

/-- The live events that the filter asks for. -/
def query (c : Client) (now : Millis) : List Event := c.store.query c.filter now

end Client

end AttackMap
