import AttackMap.Saturating
import AttackMap.Status

/-!
# Reconnecting

When to try again. The machine knows nothing of sockets or clocks: it is
told what happened and answers with the state to be in, and a state of
waiting says how long.

The delay grows with the failures in a row, by a fixed step up to a cap,
and a connection that opens forgets them. An input that makes no sense in a
state leaves it alone; once closed, the machine stays closed.
-/

namespace AttackMap

namespace Reconnect

/-- The delay after the first failure. -/
def base : Span := .ofMillis 500

/-- What each further failure in a row adds. -/
def increment : Span := .ofMillis 800

/-- The longest delay. -/
def cap : Span := .ofMillis 12000

/-- The delay after so many failures before this one. -/
def delay (failures : UInt32) : Span := (base.plus (increment.times failures.toNat)).atMost cap

/-- Where the connection stands. -/
inductive State where
  | idle
  | connecting
  | opened
  /-- Waiting before the next attempt. -/
  | waiting (delay : Span)
  /-- Closed for good. -/
  | closed
  deriving DecidableEq

/-- What can happen to it. -/
inductive Input where
  | start
  /-- An attempt has succeeded. -/
  | opened
  /-- An attempt has failed, or an open connection is lost. -/
  | failed
  /-- The delay is over. -/
  | elapsed
  | close
  deriving DecidableEq, Repr

end Reconnect

/-- The state and the failures since a connection last opened. -/
structure Reconnect where
  state : Reconnect.State
  failures : UInt32
  deriving DecidableEq

namespace Reconnect

/-- Not started. -/
def start : Reconnect := ⟨.idle, 0⟩

/-- One failure more, held at the ceiling. -/
def countFailure (n : UInt32) : UInt32 := UInt32.ofNat (min (n.toNat + 1) (UInt32.size - 1))

/-- What an input does. -/
def step (m : Reconnect) (i : Input) : Reconnect :=
  match m.state, i with
  | .closed, _ => m
  | _, .close => { m with state := .closed }
  | .idle, .start => { m with state := .connecting }
  | .waiting _, .elapsed => { m with state := .connecting }
  | .connecting, .opened => ⟨.opened, 0⟩
  | .connecting, .failed => ⟨.waiting (delay m.failures), countFailure m.failures⟩
  | .opened, .failed => ⟨.waiting (delay m.failures), countFailure m.failures⟩
  | _, _ => m

/-- What the state means for the transport. -/
def status (m : Reconnect) : TransportStatus :=
  match m.state with
  | .idle | .connecting => .connecting
  | .opened => .opened
  | .waiting _ | .closed => .closed

end Reconnect

end AttackMap
