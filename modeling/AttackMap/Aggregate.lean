import AttackMap.Event

/-!
# Aggregates

What the server says about a whole window: totals, the busiest sources,
targets and kinds, and a grid of cells that holds how much was seen where.
The client takes an aggregate as it comes and never merges two.
-/

namespace AttackMap

open Json

/-- A cell of the grid. Cells are five degrees wide and counted from the
crossing of the equator and the prime meridian. -/
structure HeatBucket where
  latBin : Int32
  lonBin : Int32
  count : UInt64
  severitySum : UInt64
  deriving DecidableEq, Repr

namespace HeatBucket

def record : Record HeatBucket :=
  HeatBucket.mk <$> .required "lat_bin" Reader.int32 <*> .required "lon_bin" Reader.int32
    <*> .required "count" Reader.uint64 <*> .required "severity_sum" Reader.uint64

def toJson (b : HeatBucket) : Json :=
  .object [("lat_bin", .ofInt b.latBin.toInt), ("lon_bin", .ofInt b.lonBin.toInt),
    ("count", .ofNat b.count.toNat), ("severity_sum", .ofNat b.severitySum.toNat)]

end HeatBucket

/-- The figures of a window. -/
structure Aggregate where
  window : String
  serverTime : Timestamp
  seq : UInt64
  count : UInt64
  eventsPerSecond : Float
  topSources : List (String × UInt64)
  topTargets : List (String × UInt64)
  topKinds : List (String × UInt64)
  bySeverity : List (UInt8 × UInt64)
  heat : List HeatBucket
  deriving DecidableEq

namespace Aggregate

/-- Names with counts. -/
def ranking : Reader (List (String × UInt64)) := .list (.pair .string .uint64)

def record : Record Aggregate :=
  Aggregate.mk <$> .required "window" .string
    <*> .required "server_ts" Event.timestamp
    <*> .required "seq" .uint64
    <*> .required "count" .uint64
    <*> .required "eps" .float
    <*> .defaulted "top_sources" ranking []
    <*> .defaulted "top_targets" ranking []
    <*> .defaulted "top_types" ranking []
    <*> .defaulted "by_severity" (.list (.pair .uint8 .uint64)) []
    <*> .defaulted "heat" (.list HeatBucket.record.read) []

def rankingToJson (xs : List (String × UInt64)) : Json :=
  .ofList (fun (name, n) => .array [.string name, .ofNat n.toNat]) xs

def toJson (a : Aggregate) : Json :=
  .object [("window", .string a.window), ("server_ts", .string a.serverTime.text),
    ("seq", .ofNat a.seq.toNat), ("count", .ofNat a.count.toNat),
    ("eps", .ofFloat a.eventsPerSecond), ("top_sources", rankingToJson a.topSources),
    ("top_targets", rankingToJson a.topTargets), ("top_types", rankingToJson a.topKinds),
    ("by_severity",
      .ofList (fun (s, n) => .array [.ofNat s.toNat, .ofNat n.toNat]) a.bySeverity),
    ("heat", .ofList HeatBucket.toJson a.heat)]

end Aggregate

end AttackMap
