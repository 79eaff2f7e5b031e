import AttackMap.Json.Read

/-!
# Statuses

Three views of how the stream is doing. The transport says whether there is
a connection; the stream sub-state says what the heartbeats of an open
connection show; the live state is the verdict that the two give together.

Also here: the modes in which the server sends, and the windows over which
it aggregates.
-/

namespace AttackMap

/-- The verdict shown to the user. -/
inductive LiveState where
  | connecting | live | stale | offline
  deriving DecidableEq, Repr, Inhabited

namespace LiveState

def all : List LiveState := [.connecting, .live, .stale, .offline]

/-- The name on the wire. -/
def name : LiveState → String
  | .connecting => "CONNECTING"
  | .live => "LIVE"
  | .stale => "STALE"
  | .offline => "OFFLINE"

/-- The name in a log line. -/
def label : LiveState → String
  | .connecting => "Connecting"
  | .live => "Live"
  | .stale => "Stale"
  | .offline => "Offline"

def reader : Json.Reader LiveState := Json.Reader.choice (all.map fun s => (s.name, s))

end LiveState

/-- What the transport reports. -/
inductive TransportStatus where
  | connecting | opened | closed
  deriving DecidableEq, Repr, Inhabited

namespace TransportStatus

def all : List TransportStatus := [.connecting, .opened, .closed]

def name : TransportStatus → String
  | .connecting => "CONNECTING"
  | .opened => "OPEN"
  | .closed => "CLOSED"

def reader : Json.Reader TransportStatus := Json.Reader.choice (all.map fun s => (s.name, s))

end TransportStatus

/-- What the heartbeats of an open connection show. -/
inductive StreamState where
  | waiting | live | stale
  deriving DecidableEq, Repr, Inhabited

namespace StreamState

def all : List StreamState := [.waiting, .live, .stale]

def name : StreamState → String
  | .waiting => "WAITING"
  | .live => "LIVE"
  | .stale => "STALE"

/-- The name in a log line. -/
def label : StreamState → String
  | .waiting => "Waiting"
  | .live => "Live"
  | .stale => "Stale"

def reader : Json.Reader StreamState := Json.Reader.choice (all.map fun s => (s.name, s))

end StreamState

/-- The verdict: a closed transport is offline whatever was heard before; an
open one is what its heartbeats show, and until the first of them is judged
it still counts as connecting. -/
def LiveState.derive : TransportStatus → StreamState → LiveState
  | .closed, _ => .offline
  | .connecting, _ => .connecting
  | .opened, .waiting => .connecting
  | .opened, .live => .live
  | .opened, .stale => .stale

/-- How much the server sends. -/
inductive StreamMode where
  | raw | hybrid | aggregateOnly
  deriving DecidableEq, Repr, Inhabited

namespace StreamMode

def all : List StreamMode := [.raw, .hybrid, .aggregateOnly]

def name : StreamMode → String
  | .raw => "raw"
  | .hybrid => "hybrid"
  | .aggregateOnly => "agg_only"

/-- The name in a log line. -/
def label : StreamMode → String
  | .raw => "Raw"
  | .hybrid => "Hybrid"
  | .aggregateOnly => "AggOnly"

/-- Whether single events are sent in this mode. -/
def carriesEvents (m : StreamMode) : Bool := m ≠ .aggregateOnly

def reader : Json.Reader StreamMode := Json.Reader.choice (all.map fun m => (m.name, m))

end StreamMode

/-- The window of an aggregate. -/
inductive Window where
  | fiveMinutes | fifteenMinutes | oneHour
  deriving DecidableEq, Repr, Inhabited

namespace Window

def all : List Window := [.fiveMinutes, .fifteenMinutes, .oneHour]

def name : Window → String
  | .fiveMinutes => "5m"
  | .fifteenMinutes => "15m"
  | .oneHour => "1h"

def options : List (String × Window) := all.map fun w => (w.name, w)

def reader : Json.Reader Window := Json.Reader.choice options

end Window

end AttackMap
