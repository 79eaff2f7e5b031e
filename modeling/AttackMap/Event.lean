import AttackMap.AttackKind
import AttackMap.Endpoint
import AttackMap.EventId
import AttackMap.Saturating
import AttackMap.Timestamp

/-!
# Attack events

One detection as the server reports it, and what follows from its fields
alone: when it expires, whether it is alive, whether its figures are in
range.

An event without an expiry of its own lives for its `ttl`, and for a
millisecond if that is not positive. All times saturate, so an event can
expire at the end of time but not before its own beginning for want of
bits.
-/

namespace AttackMap

open Json

/-- How strong an attack is. -/
structure Volume where
  pps : Option UInt64
  bps : Option UInt64
  deriving Repr, DecidableEq

namespace Volume

def record : Record Volume :=
  Volume.mk <$> .nullable "pps" Reader.uint64 <*> .nullable "bps" Reader.uint64

def toJson (v : Volume) : Json :=
  .object [("pps", .ofOption (.ofNat ·.toNat) v.pps), ("bps", .ofOption (.ofNat ·.toNat) v.bps)]

end Volume

/-- One detection. -/
structure Event where
  id : EventId
  detected : Timestamp
  kind : AttackKind
  severity : UInt8
  volume : Option Volume
  src : Endpoint
  dst : Endpoint
  tags : List String
  confidence : Float
  source : String
  real : Bool
  ttl : Millis
  expires : Option Timestamp
  isMajor : Bool
  seq : Option UInt64
  serverTime : Option Timestamp
  deriving DecidableEq

namespace Event

/-- The severity from which an event is major. -/
def majorSeverity : UInt8 := 7

/-- The greatest severity. -/
def maxSeverity : UInt8 := 10

/-! ## Time -/

def detectedAt (e : Event) : Millis := e.detected.millis

/-- The lifetime, at least a millisecond. -/
def lifetime (e : Event) : Millis := if e.ttl < 1 then 1 else e.ttl

/-- The moment from which the event is dead. -/
def expiresAt (e : Event) : Millis :=
  match e.expires with
  | some t => t.millis
  | none => e.detectedAt.plus e.lifetime

def isAlive (e : Event) (now : Millis) : Bool := now < e.expiresAt

/-- How long the event still has to live; not positive if it is dead. -/
def remaining (e : Event) (now : Millis) : Millis := e.expiresAt.minus now

/-- An event always has some lifetime. -/
theorem lifetime_pos (e : Event) : 0 < e.lifetime.toInt := by
  unfold lifetime
  split
  · decide
  · next h =>
    rw [Int64.lt_iff_toInt_lt] at h
    simp only [Int64.reduceToInt] at h
    omega

/-- Being alive and having time left are one thing, at every moment. -/
theorem isAlive_iff_remaining_pos (e : Event) (now : Millis) :
    e.isAlive now = true ↔ 0 < (e.remaining now).toInt := by
  rw [isAlive, decide_eq_true_eq, Int64.lt_iff_toInt_lt, remaining, Millis.toInt_minus,
    Millis.least, Millis.greatest]
  have := e.expiresAt.toInt_lt
  have := e.expiresAt.le_toInt
  have := now.toInt_lt
  have := now.le_toInt
  omega

/-! ## Severity and validity -/

/-- The severity moved into 1..10. -/
def clampedSeverity (e : Event) : UInt8 :=
  if e.severity < 1 then 1 else if maxSeverity < e.severity then maxSeverity else e.severity

def isMajorSeverity (e : Event) : Bool := majorSeverity ≤ e.severity

/-- A figure that validation looks at. -/
inductive Figure where
  | confidence | severity
  deriving DecidableEq, Repr

def Figure.name : Figure → String
  | .confidence => "confidence"
  | .severity => "severity"

/-- The figures out of range, by name. A confidence that is not a number is
neither above nor below anything and passes. -/
def faults (e : Event) : List Figure :=
  (if e.confidence > 1 ∨ e.confidence < 0 then [.confidence] else [])
    ++ (if e.severity < 1 ∨ maxSeverity < e.severity then [.severity] else [])

/-- Whether every figure is in range. -/
def isValid (e : Event) : Bool := e.faults.isEmpty

/-! ## The wire -/

def timestamp : Reader Timestamp := .parsed Timestamp.ofText?

def record : Record Event :=
  Event.mk <$> .required "id" (.parsed EventId.ofText?)
    <*> .required "ts" timestamp
    <*> .required "attack_type" AttackKind.reader
    <*> .required "severity" .uint8
    <*> .nullable "volume" Volume.record.read
    <*> .required "src" Endpoint.record.read
    <*> .required "dst" Endpoint.record.read
    <*> .defaulted "tags" (.list .string) []
    <*> .required "confidence" .float
    <*> .defaulted "source" .string ""
    <*> .defaulted "real" .bool true
    <*> .required "ttl_ms" .int64
    <*> .nullable "expires_at" timestamp
    <*> .defaulted "is_major" .bool false
    <*> .nullable "seq" .uint64
    <*> .nullable "server_ts" timestamp

def toJson (e : Event) : Json :=
  .object [("id", .string e.id.text), ("ts", .string e.detected.text),
    ("attack_type", e.kind.toJson), ("severity", .ofNat e.severity.toNat),
    ("volume", .ofOption Volume.toJson e.volume), ("src", e.src.toJson), ("dst", e.dst.toJson),
    ("tags", .ofList .string e.tags), ("confidence", .ofFloat e.confidence),
    ("source", .string e.source), ("real", .bool e.real), ("ttl_ms", .ofInt e.ttl.toInt),
    ("expires_at", .ofOption (.string ·.text) e.expires), ("is_major", .bool e.isMajor),
    ("seq", .ofOption (.ofNat ·.toNat) e.seq),
    ("server_ts", .ofOption (.string ·.text) e.serverTime)]

end Event

end AttackMap
