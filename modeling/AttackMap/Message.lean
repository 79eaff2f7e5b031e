import AttackMap.Aggregate
import AttackMap.Json.Printer
import AttackMap.Json.Tagged
import AttackMap.Status

/-!
# Messages

Every frame of the stream is one JSON value with a tag. The server sends
heartbeats, mode directives, events and aggregates; the client sends
telemetry about its load and the filters it shows.

Decoding refuses a frame for what is wrong with its text (`Complaint`) or,
where an event reads well, for figures out of range. Encoding never fails;
a rate that is not finite is written as `null`.
-/

namespace AttackMap

open Json

/-! ## From the server -/

/-- A message from the server. -/
inductive Inbound where
  | heartbeat (serverTime : Option Timestamp) (seq : UInt64)
  | mode (serverTime : Option Timestamp) (directive : StreamMode) (reason : String)
  | event (serverTime : Option Timestamp) (seq : UInt64) (payload : Event)
  | aggregate (serverTime : Option Timestamp) (seq : UInt64) (payload : Aggregate)
  deriving DecidableEq

namespace Inbound

/-- The tag of a message. -/
def tag : Inbound → String
  | .heartbeat .. => "hb"
  | .mode .. => "mode"
  | .event .. => "event"
  | .aggregate .. => "agg"

def heartbeatRecord : Record Inbound :=
  heartbeat <$> .nullable "server_ts" Event.timestamp <*> .required "seq" Reader.uint64

def modeRecord : Record Inbound :=
  mode <$> .nullable "server_ts" Event.timestamp <*> .required "mode" StreamMode.reader
    <*> .defaulted "reason" Reader.string ""

def eventRecord : Record Inbound :=
  event <$> .nullable "server_ts" Event.timestamp <*> .required "seq" Reader.uint64
    <*> .required "payload" Event.record.read

def aggregateRecord : Record Inbound :=
  aggregate <$> .nullable "server_ts" Event.timestamp <*> .required "seq" Reader.uint64
    <*> .required "payload" Aggregate.record.read

/-- The tags, each with what stands beside it. -/
def variants : List (String × Record Inbound) :=
  [("hb", heartbeatRecord), ("mode", modeRecord), ("event", eventRecord), ("agg", aggregateRecord)]

/-- Why a frame is refused. -/
inductive Refusal where
  | json (c : Complaint)
  | invalid (figures : List Event.Figure)
  deriving DecidableEq, Repr

/-- A message is let through if its event, if it has one, is valid. -/
def validated (m : Inbound) : Except Refusal Inbound :=
  match m with
  | .event _ _ e => if e.isValid then .ok m else .error (.invalid e.faults)
  | m => .ok m

/-- Read a frame. -/
def decode (text : String) : Except Refusal Inbound :=
  match (Document.read text.toList).readBy (readTagged "type" variants) with
  | .ok m => m.validated
  | .error c => .error (.json c)

def toJson (m : Inbound) : Json :=
  let time (t : Option Timestamp) : String × Json := ("server_ts", .ofOption (.string ·.text) t)
  .object <| ("type", .string m.tag) :: match m with
    | .heartbeat t seq => [time t, ("seq", .ofNat seq.toNat)]
    | .mode t m reason => [time t, ("mode", .string m.name), ("reason", .string reason)]
    | .event t seq e => [time t, ("seq", .ofNat seq.toNat), ("payload", e.toJson)]
    | .aggregate t seq a => [time t, ("seq", .ofNat seq.toNat), ("payload", a.toJson)]

end Inbound

/-! ## To the server -/

/-- A message to the server. -/
inductive Outbound where
  | telemetry (fps : Float) (queued dropped : UInt64)
  | setFilters (window : Window) (minSeverity : UInt8) (majorOnly : Bool) (kinds : List AttackKind)
      (country : Option String)
  deriving DecidableEq

namespace Outbound

/-- The tag of a message. -/
def tag : Outbound → String
  | .telemetry .. => "client_telemetry"
  | .setFilters .. => "set_filters"

def telemetryRecord : Record Outbound :=
  telemetry <$> .required "render_fps" Reader.float <*> .required "queue_len" Reader.uint64
    <*> .required "dropped_events" Reader.uint64

def setFiltersRecord : Record Outbound :=
  setFilters <$> .required "window" Window.reader <*> .required "min_severity" Reader.uint8
    <*> .required "major_only" Reader.bool <*> .required "types" (.list AttackKind.reader)
    <*> .present "country" Reader.string

def variants : List (String × Record Outbound) :=
  [("client_telemetry", telemetryRecord), ("set_filters", setFiltersRecord)]

/-- Read a message from a tree. -/
def ofJson (j : Json) : Except Complaint Outbound := readTagged "type" variants j

/-- Read a message from a text. -/
def decode (text : String) : Except Complaint Outbound := (Document.read text.toList).readBy ofJson

def toJson (m : Outbound) : Json :=
  .object <| ("type", .string m.tag) :: match m with
    | .telemetry fps queued dropped =>
      [("render_fps", .ofFloat fps), ("queue_len", .ofNat queued.toNat),
        ("dropped_events", .ofNat dropped.toNat)]
    | .setFilters window minSeverity majorOnly kinds country =>
      [("window", .string window.name), ("min_severity", .ofNat minSeverity.toNat),
        ("major_only", .bool majorOnly), ("types", .ofList AttackKind.toJson kinds),
        ("country", .ofOption .string country)]

/-- The text of a message. -/
def encode (m : Outbound) : String := String.ofList m.toJson.text

end Outbound

end AttackMap
