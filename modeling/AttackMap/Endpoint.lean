import AttackMap.Json.Record

/-!
# Endpoints

Where an attack comes from or goes to: an address, the network that
announces it, and a place. Everything about an endpoint may be unknown. A
place has coordinates only if both are given and finite; half a pair draws
nothing.
-/

namespace AttackMap

open Json

/-- A point on the map, in degrees. -/
structure LonLat (α : Type) where
  lon : α
  lat : α
  deriving Repr, DecidableEq

namespace LonLat

def isFinite (p : LonLat Float) : Bool := p.lon.isFinite && p.lat.isFinite

def record : Record (LonLat Float) :=
  LonLat.mk <$> .required "lon" Reader.float <*> .required "lat" Reader.float

def toJson (p : LonLat Float) : Json :=
  .object [("lon", .ofFloat p.lon), ("lat", .ofFloat p.lat)]

end LonLat

/-- The network an address belongs to. -/
structure Asn where
  asn : Option String
  org : Option String
  deriving Repr, DecidableEq

namespace Asn

def record : Record Asn :=
  Asn.mk <$> .nullable "asn" Reader.string <*> .nullable "org" Reader.string

def toJson (a : Asn) : Json :=
  .object [("asn", .ofOption .string a.asn), ("org", .ofOption .string a.org)]

end Asn

/-- A place. -/
structure Geo where
  lat : Option Float
  lon : Option Float
  country : Option String
  city : Option String
  approx : Option Bool
  deriving Repr, DecidableEq

namespace Geo

/-- The coordinates, if both are given and finite. -/
def coordinates (g : Geo) : Option (LonLat Float) :=
  match g.lon, g.lat with
  | some lon, some lat =>
    let p : LonLat Float := ⟨lon, lat⟩
    if p.isFinite then some p else none
  | _, _ => none

def record : Record Geo :=
  Geo.mk <$> .nullable "lat" Reader.float <*> .nullable "lon" Reader.float
    <*> .nullable "country" Reader.string <*> .nullable "city" Reader.string
    <*> .nullable "approx" Reader.bool

def toJson (g : Geo) : Json :=
  .object [("lat", .ofOption .ofFloat g.lat), ("lon", .ofOption .ofFloat g.lon),
    ("country", .ofOption .string g.country), ("city", .ofOption .string g.city),
    ("approx", .ofOption .bool g.approx)]

end Geo

/-- One end of an attack. -/
structure Endpoint where
  ip : Option String
  asn : Option Asn
  geo : Option Geo
  deriving Repr, DecidableEq

namespace Endpoint

/-- The endpoint of which nothing is known. -/
def unknown : Endpoint := ⟨none, none, none⟩

def coordinates (e : Endpoint) : Option (LonLat Float) := e.geo.bind Geo.coordinates

def country (e : Endpoint) : Option String := e.geo.bind Geo.country

def record : Record Endpoint :=
  Endpoint.mk <$> .nullable "ip" Reader.string <*> .nullable "asn" Asn.record.read
    <*> .nullable "geo" Geo.record.read

def toJson (e : Endpoint) : Json :=
  .object [("ip", .ofOption .string e.ip), ("asn", .ofOption Asn.toJson e.asn),
    ("geo", .ofOption Geo.toJson e.geo)]

end Endpoint

end AttackMap
