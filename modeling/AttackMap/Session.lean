import AttackMap.Message
import AttackMap.Reconnect

/-!
# Sessions

One connection to the stream, kept up as long as its owner wants. The owner
asks for the next event and gets a change of status or a message; between
the two the session consumes what its surroundings tell it (`Signal`): how
an attempt to connect ended, that a delay is over, what came over the
socket.

Asking may be given up at any point where the session waits, and asked
again later. Nothing is lost by that, since all that the session knows is
in its fields: that an attempt is under way, that a socket is held, which
delay runs.

A frame that does not decode is counted and otherwise passed over; so is a
binary frame that is no text. Control frames are passed over uncounted.
-/

namespace AttackMap

/-- How an attempt to connect ended. -/
inductive DialOutcome where
  | connected
  | failed
  /-- No answer within the time allowed. -/
  | timedOut
  deriving DecidableEq, Repr

/-- What comes over a socket. -/
inductive Incoming where
  | text (s : String)
  | binary (bytes : ByteArray)
  /-- A ping, a pong or a bare frame. -/
  | control
  /-- The peer closes. -/
  | close
  /-- The stream ends without being closed. -/
  | ended
  | readError

/-- What the surroundings tell a session. -/
inductive Signal where
  | dialed (outcome : DialOutcome)
  /-- The delay is over. -/
  | due
  | incoming (frame : Incoming)

/-- What a session tells its owner. -/
inductive SessionEvent where
  | status (status : TransportStatus)
  | message (m : Inbound)
  deriving DecidableEq

/-- A connection and its bookkeeping. -/
structure Session where
  machine : Reconnect
  /-- Whether an attempt to connect is under way. -/
  dialing : Bool
  /-- Whether a socket is held. -/
  socket : Bool
  /-- The delay that runs. -/
  retry : Option Span
  malformed : Tally

namespace Session

/-- A session that has not been asked for anything. -/
def start : Session := ⟨.start, false, false, none, 0⟩

def status (s : Session) : TransportStatus := s.machine.status

def isOpen (s : Session) : Bool := s.machine.state = .opened

/-- The attempts that failed since a connection was last open. -/
def failures (s : Session) : UInt32 := s.machine.failures

/-! ## Being asked -/

/-- Where a request for the next event stands. -/
inductive Reply where
  /-- There is no next event: the session is closed. -/
  | finished
  | event (e : SessionEvent)
  /-- A signal is needed first. -/
  | pending
  deriving DecidableEq

/-- Let go of the socket and plan the next attempt. -/
def fail (s : Session) : Session :=
  let machine := s.machine.step .failed
  { s with
    machine
    socket := false
    retry := match machine.state with
      | .waiting delay => some delay
      | _ => s.retry }

/-- Begin the next attempt. -/
def redial (s : Session) : Session :=
  { s with machine := s.machine.step .elapsed, retry := none }

/-- What a request comes to before any signal. -/
def ask (s : Session) : Session × Reply :=
  match s.machine.state with
  | .closed => (s, .finished)
  | .idle => ({ s with machine := s.machine.step .start }, .event (.status .connecting))
  | .waiting _ =>
    if s.retry.isSome then (s, .pending) else (s.redial, .event (.status .connecting))
  | .connecting => ({ s with dialing := true }, .pending)
  | .opened => if s.socket then (s, .pending) else (s.fail, .event (.status .closed))

/-! ## Signals -/

/-- A text that came: a message, or one more malformed frame. -/
def receive (s : Session) (text : String) : Session × Option SessionEvent :=
  match Inbound.decode text with
  | .ok m => (s, some (.message m))
  | .error _ => ({ s with malformed := s.malformed.next }, none)

/-- What came over the socket. -/
def read (s : Session) : Incoming → Session × Option SessionEvent
  | .text t => s.receive t
  | .binary bytes =>
    match String.fromUTF8? bytes with
    | some t => s.receive t
    | none => ({ s with malformed := s.malformed.next }, none)
  | .control => (s, none)
  | .close | .ended | .readError => (s.fail, some (.status .closed))

/-- An attempt has ended. -/
def dialed (s : Session) : DialOutcome → Session × Option SessionEvent
  | .connected =>
    ({ s with machine := s.machine.step .opened, dialing := false, socket := true },
      some (.status .opened))
  | .failed | .timedOut => ({ s with dialing := false }.fail, some (.status .closed))

/-- What a signal does while a request waits. One that the state does not
wait for does nothing. -/
def hear (s : Session) (signal : Signal) : Session × Option SessionEvent :=
  match s.machine.state, signal with
  | .connecting, .dialed outcome => s.dialed outcome
  | .waiting _, .due => (s.redial, some (.status .connecting))
  | .opened, .incoming frame => s.read frame
  | _, _ => (s, none)

/-- Wait on signals until one gives an event: the session, how the request
stands, and the signals not consumed. -/
def listen (s : Session) : List Signal → Session × Reply × List Signal
  | [] => (s, .pending, [])
  | signal :: rest =>
    match s.hear signal with
    | (s, some e) => (s, .event e, rest)
    | (s, none) => s.listen rest

/-- Ask for the next event while the surroundings give `signals`. -/
def next (s : Session) (signals : List Signal) : Session × Reply × List Signal :=
  match s.ask with
  | (s, .pending) => s.listen signals
  | (s, reply) => (s, reply, signals)

/-! ## Sending and closing -/

/-- The text that a message puts on the socket; nothing is kept for later
if there is none. -/
def send (s : Session) (m : Outbound) : Option String :=
  if s.socket then some m.encode else none

/-- Close for good. -/
def close (s : Session) : Session :=
  { s with machine := s.machine.step .close, dialing := false, socket := false, retry := none }

end Session

end AttackMap
