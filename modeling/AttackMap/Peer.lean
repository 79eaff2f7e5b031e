import AttackMap.Session

/-!
# Scripted peers

A peer that plays a fixed list of connections, and the transcript of a
session against it: every event the session gives, with the session as it
then is, and every text the peer gets to read. The delays between the
connections pass as they are due.
-/

namespace AttackMap

/-- How one connection goes. -/
inductive Connection where
  /-- It is dropped before the handshake. -/
  | refused
  /-- The handshake is never answered. -/
  | stalled
  /-- It opens, brings frames and is closed, or just ends. -/
  | served (frames : List Incoming) (closed : Bool)
  /-- It opens and is lost before the peer has read or sent anything. -/
  | vanished

namespace Connection

/-- What the session is told. -/
def signals : Connection → List Signal
  | .refused => [.dialed .failed]
  | .stalled => [.dialed .timedOut]
  | .served frames closed =>
    .dialed .connected :: frames.map .incoming ++ [.incoming (if closed then .close else .ended)]
  | .vanished => [.dialed .connected, .incoming .readError]

/-- Whether the peer reads what is sent to it. -/
def reads : Connection → Bool
  | .served .. => true
  | _ => false

end Connection

/-- An event and the session that gave it. -/
structure Moment where
  event : SessionEvent
  session : Session

/-- What a client does with a peer. -/
structure Script where
  connections : List Connection
  /-- What the client sends whenever the connection opens. -/
  sends : List Outbound
  /-- Whether it sends only after the peer has gone. -/
  late : Bool
  /-- Whether it closes as soon as a connection is open. -/
  leaves : Bool

namespace Script

/-- Whether a moment ends the script early. -/
def stops (script : Script) (m : Moment) : Bool :=
  script.leaves && m.event = .status .opened

/-- The events that signals give, asked for one after the other. -/
def events (script : Script) : Nat → Session → List Signal → List Moment
  | 0, _, _ => []
  | fuel + 1, s, signals =>
    match s.next signals with
    | (s, .event e, rest) =>
      let m : Moment := ⟨e, s⟩
      if script.stops m then [m] else m :: script.events fuel s rest
    | _ => []

/-- The texts sent at a moment. -/
def sentAt (script : Script) (m : Moment) : List String :=
  if m.event = .status .opened then script.sends.filterMap m.session.send else []

/-- Play the connections: the events, the texts read, and whether the
script came to its end. -/
def play (script : Script) (s : Session) : List Connection → List Moment × List String × Bool
  | [] => ([], [], true)
  | c :: rest =>
    let before : List Signal := match s.machine.state with
      | .waiting _ => [.due]
      | _ => []
    let signals := before ++ c.signals
    let moments := script.events (signals.length + 1) s signals
    let texts := if c.reads && !script.late then moments.flatMap script.sentAt else []
    if moments.any script.stops then (moments, texts, false)
    else
      let last := (moments.getLast?.map (·.session)).getD s
      let (later, more, done) := script.play last rest
      (moments ++ later, texts ++ more, done)

end Script

end AttackMap
