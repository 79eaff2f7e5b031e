import AttackMap.Message
import AttackMap.Proofs.Json.Envelope
import AttackMap.Proofs.Json.Grammar
import AttackMap.Proofs.Json.Printed

/-!
# Frames written in another way

A frame of the server says the same whatever the order of its members and
its blanks, with members that nobody declared added to its records, and with
members that only state their default added or left out. Which members a
record has and what they default to is declared here once more, as data
(`Event.slots`, `Inbound.declared`), and each record is proved to keep to
what is declared for it.

The law is about texts (`Inbound.decode_rewritten`): two that are written for
trees which such edits lead to one another are decoded to the same message,
or neither is decoded. Within the nesting limit it leaves no text out, since
what is not written for a tree is never decoded
(`Inbound.exists_spells_of_decode`).
-/

namespace AttackMap

open Json
open Json.Shape (Slot)

/-! ## What the records declare -/

namespace Json.Shape

/-- A member that must be there. -/
def required (name : String) (shape : Shape) : Slot := (name, shape, none)

/-- A member whose default is written as a tree. -/
def defaulted (name : String) (shape : Shape) (default : Json) : Slot := (name, shape, some default)

/-- A member that may be `null` and then says nothing. -/
def nullable (name : String) (shape : Shape) : Slot := defaulted name shape .null

end Json.Shape

open Json.Shape (required defaulted nullable leaf)

def Volume.slots : List Slot := [nullable "pps" leaf, nullable "bps" leaf]

def Asn.slots : List Slot := [nullable "asn" leaf, nullable "org" leaf]

def Geo.slots : List Slot :=
  [nullable "lat" leaf, nullable "lon" leaf, nullable "country" leaf, nullable "city" leaf,
    nullable "approx" leaf]

def Endpoint.slots : List Slot :=
  [nullable "ip" leaf, nullable "asn" (.record Asn.slots), nullable "geo" (.record Geo.slots)]

def Event.slots : List Slot :=
  [required "id" leaf, required "ts" leaf, required "attack_type" leaf, required "severity" leaf,
    nullable "volume" (.record Volume.slots), required "src" (.record Endpoint.slots),
    required "dst" (.record Endpoint.slots), defaulted "tags" leaf (.array []),
    required "confidence" leaf, defaulted "source" leaf (.string ""),
    defaulted "real" leaf (.bool true), required "ttl_ms" leaf, nullable "expires_at" leaf,
    defaulted "is_major" leaf (.bool false), nullable "seq" leaf, nullable "server_ts" leaf]

def HeatBucket.slots : List Slot :=
  [required "lat_bin" leaf, required "lon_bin" leaf, required "count" leaf,
    required "severity_sum" leaf]

def Aggregate.slots : List Slot :=
  [required "window" leaf, required "server_ts" leaf, required "seq" leaf, required "count" leaf,
    required "eps" leaf, defaulted "top_sources" leaf (.array []),
    defaulted "top_targets" leaf (.array []), defaulted "top_types" leaf (.array []),
    defaulted "by_severity" leaf (.array []),
    defaulted "heat" (.list (.record HeatBucket.slots)) (.array [])]

namespace Inbound

/-- What stands beside the tag, for each of the tags. -/
def declared : List (String × List Slot) :=
  [("hb", [nullable "server_ts" leaf, required "seq" leaf]),
    ("mode",
      [nullable "server_ts" leaf, required "mode" leaf, defaulted "reason" leaf (.string "")]),
    ("event", [nullable "server_ts" leaf, required "seq" leaf,
      required "payload" (.record Event.slots)]),
    ("agg", [nullable "server_ts" leaf, required "seq" leaf,
      required "payload" (.record Aggregate.slots)])]

/-- One edit of a frame's tree. -/
def Edited (j j' : Json) : Prop := Edit (envelope "type" declared j) j j'

/-- A frame's tree in another way: any number of edits. -/
def Rewritten : Json → Json → Prop := Relation.ReflTransGen Edited

end Inbound

/-! ## The records keep to it -/

namespace Json.Record

section Fields

variable {α : Type} {name : String} {r : Reader α} {slots : List Slot} {i : Nat} {shape : Shape}

theorem required_keeps (slot : slots[i]? = some (Shape.required name shape)) (hr : r.Keeps shape) :
    (Record.required name r).Keeps slots i :=
  field_keeps slot hr fun _ none => nomatch none

theorem defaulted_keeps {j : Json} {d : α} (slot : slots[i]? = some (Shape.defaulted name shape j))
    (hr : r.Keeps shape) (same : r.taken j = some d) : (Record.defaulted name r d).Keeps slots i :=
  field_keeps slot hr fun _ this => Option.some.inj this ▸ same

theorem nullable_keeps (slot : slots[i]? = some (Shape.nullable name shape)) (hr : r.Keeps shape) :
    (Record.nullable name r).Keeps slots i :=
  defaulted_keeps slot hr.optional rfl

end Fields

open Reader

theorem volume_keeps : Volume.record.read.Keeps (.record Volume.slots) :=
  Keeps.read (((nullable_keeps rfl (plain_uint64.keeps leaf)).map _)
    |>.seq (nullable_keeps rfl (plain_uint64.keeps leaf))) (by decide)

theorem asn_keeps : Asn.record.read.Keeps (.record Asn.slots) :=
  Keeps.read (((nullable_keeps rfl (plain_string.keeps leaf)).map _)
    |>.seq (nullable_keeps rfl (plain_string.keeps leaf))) (by decide)

theorem geo_keeps : Geo.record.read.Keeps (.record Geo.slots) :=
  Keeps.read (((nullable_keeps rfl (plain_float.keeps leaf)).map _)
    |>.seq (nullable_keeps rfl (plain_float.keeps leaf))
    |>.seq (nullable_keeps rfl (plain_string.keeps leaf))
    |>.seq (nullable_keeps rfl (plain_string.keeps leaf))
    |>.seq (nullable_keeps rfl (plain_bool.keeps leaf))) (by decide)

theorem endpoint_keeps : Endpoint.record.read.Keeps (.record Endpoint.slots) :=
  Keeps.read (((nullable_keeps rfl (plain_string.keeps leaf)).map _)
    |>.seq (nullable_keeps rfl asn_keeps)
    |>.seq (nullable_keeps rfl geo_keeps)) (by decide)

theorem timestamp_keeps : Event.timestamp.Keeps leaf := (plain_parsed _).keeps leaf

theorem event_keeps : Event.record.read.Keeps (.record Event.slots) :=
  Keeps.read (((required_keeps rfl ((plain_parsed _).keeps leaf)).map _)
    |>.seq (required_keeps rfl timestamp_keeps)
    |>.seq (required_keeps rfl (keeps_choice _))
    |>.seq (required_keeps rfl (plain_uint8.keeps leaf))
    |>.seq (nullable_keeps rfl volume_keeps)
    |>.seq (required_keeps rfl endpoint_keeps)
    |>.seq (required_keeps rfl endpoint_keeps)
    |>.seq (defaulted_keeps rfl (Reader.Keeps.list fun _ => plain_string.keeps leaf) rfl)
    |>.seq (required_keeps rfl (plain_float.keeps leaf))
    |>.seq (defaulted_keeps rfl (plain_string.keeps leaf) rfl)
    |>.seq (defaulted_keeps rfl (plain_bool.keeps leaf) rfl)
    |>.seq (required_keeps rfl (plain_int64.keeps leaf))
    |>.seq (nullable_keeps rfl timestamp_keeps)
    |>.seq (defaulted_keeps rfl (plain_bool.keeps leaf) rfl)
    |>.seq (nullable_keeps rfl (plain_uint64.keeps leaf))
    |>.seq (nullable_keeps rfl timestamp_keeps)) (by decide)

theorem heatBucket_keeps : HeatBucket.record.read.Keeps (.record HeatBucket.slots) :=
  Keeps.read (((required_keeps rfl (plain_int32.keeps leaf)).map _)
    |>.seq (required_keeps rfl (plain_int32.keeps leaf))
    |>.seq (required_keeps rfl (plain_uint64.keeps leaf))
    |>.seq (required_keeps rfl (plain_uint64.keeps leaf))) (by decide)

theorem ranking_keeps : Aggregate.ranking.Keeps leaf :=
  Reader.Keeps.list fun _ => .pair (plain_string.keeps leaf) (plain_uint64.keeps leaf)

theorem bySeverity_keeps : (Reader.list (.pair .uint8 .uint64)).Keeps leaf :=
  Reader.Keeps.list fun _ => .pair (plain_uint8.keeps leaf) (plain_uint64.keeps leaf)

theorem aggregate_keeps : Aggregate.record.read.Keeps (.record Aggregate.slots) :=
  Keeps.read (((required_keeps rfl (plain_string.keeps leaf)).map _)
    |>.seq (required_keeps rfl timestamp_keeps)
    |>.seq (required_keeps rfl (plain_uint64.keeps leaf))
    |>.seq (required_keeps rfl (plain_uint64.keeps leaf))
    |>.seq (required_keeps rfl (plain_float.keeps leaf))
    |>.seq (defaulted_keeps rfl ranking_keeps rfl)
    |>.seq (defaulted_keeps rfl ranking_keeps rfl)
    |>.seq (defaulted_keeps rfl ranking_keeps rfl)
    |>.seq (defaulted_keeps rfl bySeverity_keeps rfl)
    |>.seq (defaulted_keeps rfl (Reader.Keeps.list fun _ => heatBucket_keeps) rfl)) (by decide)

end Json.Record

namespace Inbound

open Json.Record Json.Reader

theorem heartbeatRecord_keeps :
    heartbeatRecord.read.Keeps (.record ((declared.lookup "hb").getD [])) :=
  Record.Keeps.read (((nullable_keeps rfl timestamp_keeps).map _)
    |>.seq (required_keeps rfl (plain_uint64.keeps leaf))) (by decide)

theorem modeRecord_keeps : modeRecord.read.Keeps (.record ((declared.lookup "mode").getD [])) :=
  Record.Keeps.read (((nullable_keeps rfl timestamp_keeps).map _)
    |>.seq (required_keeps rfl (keeps_choice _))
    |>.seq (defaulted_keeps rfl (plain_string.keeps leaf) rfl)) (by decide)

theorem eventRecord_keeps : eventRecord.read.Keeps (.record ((declared.lookup "event").getD [])) :=
  Record.Keeps.read (((nullable_keeps rfl timestamp_keeps).map _)
    |>.seq (required_keeps rfl (plain_uint64.keeps leaf))
    |>.seq (required_keeps rfl event_keeps)) (by decide)

theorem aggregateRecord_keeps :
    aggregateRecord.read.Keeps (.record ((declared.lookup "agg").getD [])) :=
  Record.Keeps.read (((nullable_keeps rfl timestamp_keeps).map _)
    |>.seq (required_keeps rfl (plain_uint64.keeps leaf))
    |>.seq (required_keeps rfl aggregate_keeps)) (by decide)

theorem mem_of_lookup {β : Type} {options : List (String × β)} {name : String} {b : β}
    (known : options.lookup name = some b) : (name, b) ∈ options := by
  obtain ⟨before, after, rfl, _⟩ := List.lookup_eq_some_iff.mp known
  exact List.mem_append_right _ List.mem_cons_self

theorem declares : Declares "type" declared variants where
  nodup name slots known := by
    have each : ∀ p ∈ declared, ("type" :: p.2.map Prod.fst).Nodup := by decide
    exact each (name, slots) (mem_of_lookup known)
  keeps name record known := by
    have each : ∀ p ∈ variants, p.2.read.Keeps (.record ((declared.lookup p.1).getD [])) := by
      rw [variants]
      simp only [List.forall_mem_cons]
      exact ⟨heartbeatRecord_keeps, modeRecord_keeps, eventRecord_keeps, aggregateRecord_keeps,
        nofun⟩
    exact each (name, record) (mem_of_lookup known)

/-! ## Decoding -/

/-- Only what is written for a tree is decoded, and the tree is one that can be
held within the nesting limit. -/
theorem exists_spells_of_decode {t : String} {m : Inbound} (decoded : decode t = .ok m) :
    ∃ j, Spells t.toList j ∧ j.storable = true ∧ j.depth ≤ nestingLimit := by
  rw [decode] at decoded
  split at decoded
  · next m' read =>
    obtain ⟨tagged, whole⟩ := Document.readBy_eq_ok_iff.mp read
    obtain ⟨known, within⟩ := readTagged_eq_ok_iff.mp tagged
    have held := (message?_eq_some_iff.mp known).1
    have text : ofText? t = some (Document.read t.toList).root := by
      simp only [ofText?, sound_of_storable _ held, whole]
      rfl
    exact ⟨_, spells_iff_reads.mpr (ofText?_eq_some_iff.mp text), held, within⟩
  · cases decoded

/-- What a text decodes to is a matter of its tree. -/
theorem decode_of_spells {t : String} {j : Json} (spells : Spells t.toList j) :
    (decode t).toOption =
      (readTagged "type" variants j).toOption.bind fun m => m.validated.toOption := by
  rw [decode, spells.reads.document, Document.readBy]
  cases readTagged "type" variants j <;> rfl

/-- **A frame written in another way.** Two texts within the nesting limit,
written for trees that edits lead from one to the other, with whatever blanks,
are decoded to the same message, or neither is. -/
theorem decode_rewritten {t t' : String} {j j' : Json} (spells : Spells t.toList j)
    (spells' : Spells t'.toList j') (within : j.depth ≤ nestingLimit)
    (within' : j'.depth ≤ nestingLimit) (rewritten : Rewritten j j') :
    (decode t).toOption = (decode t').toOption := by
  rw [decode_of_spells spells, decode_of_spells spells',
    readTagged_rewritten declares rewritten within within']

/-- An event with no more in it than there has to be, its source given. -/
def bareEvent (src : Json) : List (String × Json) :=
  [("id", .string "6f9619ff-8b86-d011-b42d-00cf4fc964ff"), ("ts", .string "2026-01-01T00:00:00Z"),
    ("attack_type", .string "DDoS"), ("severity", .ofNat 9), ("src", src), ("dst", .object []),
    ("confidence", .ofNat 1), ("ttl_ms", .ofNat 1000)]

/-- The frame of an event whose members are given. -/
def eventFrame (payload : List (String × Json)) : List (String × Json) :=
  [("type", .string "event"), ("seq", .ofNat 7), ("payload", .object payload)]

def bareFrame : Json := .object (eventFrame (bareEvent (.object [])))

/-- The same frame with two defaults stated, a note at the source of the event,
and its members from back to front. -/
def wordyFrame : Json :=
  .object (("server_ts", .null) :: eventFrame
    (("real", .bool true) :: bareEvent (.object [("note", .array [.null])]))).reverse

/-- An edit of the event is one of its frame. -/
theorem edited_eventFrame {ms ms' : List (String × Json)}
    (edit : Edit (.record Event.slots) (.object ms) (.object ms')) :
    Edited (.object (eventFrame ms)) (.object (eventFrame ms')) := by
  refine @Edit.member _ [_, _] [] _ _ _ ?_
  exact edit

theorem rewritten_wordyFrame : Rewritten bareFrame wordyFrame := by
  have source : Edit (.record Event.slots) (.object (bareEvent (.object [])))
      (.object (bareEvent (.object [("note", .array [.null])]))) := by
    refine @Edit.member _ [_, _, _, _] _ _ _ _ ?_
    change Edit (.record Endpoint.slots) _ _
    exact .insert (by decide) rfl
  have real : (Shape.defaulted "real" leaf (.bool true)) ∈ Event.slots :=
    List.mem_of_getElem? (i := 10) rfl
  have time : (Shape.nullable "server_ts" leaf) ∈
      ("type", leaf, none) :: (declared.lookup "event").getD [] := List.mem_of_getElem? (i := 1) rfl
  refine .head (edited_eventFrame source) ?_
  refine .head (edited_eventFrame (.fill real (by decide) rfl)) ?_
  refine .head (Edit.fill time (by decide) rfl) ?_
  exact .single (.permute (List.reverse_perm _).symm)

theorem decode_rewritten_wordyFrame :
    (decode (String.ofList bareFrame.text)).toOption =
        (decode (String.ofList ('\n' :: wordyFrame.text))).toOption ∧
      (decode (String.ofList bareFrame.text)).toOption.isSome = true := by
  have spells : Spells (String.ofList bareFrame.text).toList bareFrame := by
    rw [String.toList_ofList]
    exact spells_text bareFrame (by decide +kernel)
  have spells' : Spells (String.ofList ('\n' :: wordyFrame.text)).toList wordyFrame := by
    rw [String.toList_ofList]
    exact .blank rfl (spells_text wordyFrame (by decide +kernel))
  refine ⟨decode_rewritten spells spells' (by decide +kernel) (by decide +kernel)
    rewritten_wordyFrame, ?_⟩
  rw [decode_of_spells spells]
  decide +kernel

end Inbound

end AttackMap
