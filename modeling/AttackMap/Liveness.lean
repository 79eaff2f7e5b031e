import AttackMap.Saturating
import AttackMap.Status

/-!
# Liveness

Whether what is shown is current. Two things decide: the transport, and the
age of the last heartbeat. Events and aggregates are no heartbeat; a server
that replays them and is otherwise silent is stale.

Age is judged at heartbeats and at polls, and only while the transport is
open. A transport that leaves the open state takes the judgement with it,
but the time of the last heartbeat is remembered across.
-/

namespace AttackMap

/-- What is known about the stream. -/
structure Liveness where
  transport : TransportStatus
  stream : StreamState
  lastHeartbeat : Option Millis
  /-- The age beyond which the last heartbeat is too old. -/
  staleAfter : Millis
  /-- The verdict as it was last drawn. -/
  state : LiveState
  deriving DecidableEq, Repr

namespace Liveness

/-- The age beyond which a heartbeat is too old, unless told otherwise. -/
def usualStaleAfter : UInt64 := 10000

/-- Nothing is known yet; a heartbeat is too old after a span of time, as
far as milliseconds can say it. -/
def startWithin (staleAfter : Span) : Liveness :=
  ⟨.connecting, .waiting, none, .nearest staleAfter.millis, .connecting⟩

/-- Nothing is known yet; a heartbeat is too old after so many milliseconds. -/
def start (staleAfter : UInt64) : Liveness := startWithin (.ofMillis staleAfter.toNat)

/-! ## Judging -/

/-- Draw the verdict anew; it is told if it is not what it was. -/
def refresh (l : Liveness) : Liveness × Option LiveState :=
  let next := LiveState.derive l.transport l.stream
  if next = l.state then (l, none) else ({ l with state := next }, some next)

/-- What the last heartbeat shows at a moment. -/
def judge (l : Liveness) (now : Millis) : StreamState :=
  match l.lastHeartbeat with
  | none => .waiting
  | some last => if l.staleAfter < now.minus last then .stale else .live

/-- Look at the age of the last heartbeat, if the transport is open. -/
def look (l : Liveness) (now : Millis) : Liveness × Option LiveState :=
  if l.transport = .opened then { l with stream := l.judge now }.refresh else (l, none)

/-! ## What it is told -/

/-- What comes to be known. -/
inductive Notice where
  /-- The transport has a new status. -/
  | transport (status : TransportStatus)
  /-- A heartbeat has come. -/
  | heartbeat (now : Millis)
  /-- It is time to look at the age of the last heartbeat. -/
  | poll (now : Millis)
  deriving DecidableEq, Repr

/-- Take notice; also the verdict, if it has changed. -/
def hear (l : Liveness) : Notice → Liveness × Option LiveState
  | .transport status =>
    let stream := if status = .opened then l.stream else .waiting
    { l with transport := status, stream }.refresh
  | .heartbeat now =>
    if l.transport = .opened then { l with lastHeartbeat := some now }.look now else (l, none)
  | .poll now => l.look now

/-- The transport has a new status. -/
def onTransport (l : Liveness) (status : TransportStatus) : Liveness :=
  (l.hear (.transport status)).1

/-- Look at the age of the last heartbeat. -/
def poll (l : Liveness) (now : Millis) : Liveness := (l.hear (.poll now)).1

/-- A heartbeat has come. -/
def onHeartbeat (l : Liveness) (now : Millis) : Liveness := (l.hear (.heartbeat now)).1

/-- The verdict of `after` if it is not that of `before`. -/
def change (before after : Liveness) : Option LiveState :=
  if after.state = before.state then none else some after.state

/-! ## What drawing the verdict leaves alone -/

theorem refresh_fst (l : Liveness) :
    l.refresh.1 = { l with state := .derive l.transport l.stream } := by
  unfold refresh
  dsimp only
  split
  · next h => rw [h]
  · rfl

/-- A heartbeat on an open transport makes the stream live, unless the
clock's own range makes its age zero too old. -/
theorem state_onHeartbeat (l : Liveness) (now : Millis) (hopen : l.transport = .opened)
    (nonneg : 0 ≤ l.staleAfter.toInt) : (l.onHeartbeat now).state = .live := by
  have h : ¬ l.staleAfter < now.minus now := by
    rw [Int64.lt_iff_toInt_lt, Millis.toInt_minus, Millis.least, Millis.greatest]
    omega
  simp [onHeartbeat, hear, look, judge, refresh_fst, hopen, h, LiveState.derive]

end Liveness

end AttackMap
