import AttackMap.Proofs.Json.Held
import AttackMap.Proofs.Json.Inverse
import AttackMap.Proofs.Json.Nesting
import AttackMap.Resync
import Mathlib.Data.List.Forall2

/-!
# Two ways for an event

An event reaches the client in a frame of the stream or in the answer to a
resync. The frame is held back until its tag is known and the answer is
held as a value, and what is then read is checked in two places. Both ways
let the same events through: text for text, what one accepts the other
accepts as the same event.

Three things are set aside, since the two ways do differ in them: an
answer is held without its repeated keys, a kind of attack may be written
as an object with one key whose value the two do not judge alike, and
neither holds more than so many levels.
-/

namespace AttackMap

open Json

/-! ## The parts of an event -/

namespace Event

/-- What a tree has in the place of the kind of attack. -/
def kindParts (j : Json) : List Json := partsAt "attack_type" 2 j

end Event

namespace Json.Record

theorem steady_volume : Volume.record.read.Steady :=
  steady_read fun _ _ _ =>
    ((steady_field Reader.steady_uint64.optional).map _).seq
      (steady_field Reader.steady_uint64.optional)

theorem steady_asn : Asn.record.read.Steady :=
  steady_read fun _ _ _ =>
    ((steady_field Reader.steady_string.optional).map _).seq
      (steady_field Reader.steady_string.optional)

theorem steady_geo : Geo.record.read.Steady :=
  steady_read fun _ _ _ =>
    ((steady_field Reader.steady_float.optional).map _)
      |>.seq (steady_field Reader.steady_float.optional)
      |>.seq (steady_field Reader.steady_string.optional)
      |>.seq (steady_field Reader.steady_string.optional)
      |>.seq (steady_field Reader.steady_bool.optional)

theorem steady_endpoint : Endpoint.record.read.Steady :=
  steady_read fun _ _ _ =>
    ((steady_field Reader.steady_string.optional).map _)
      |>.seq (steady_field steady_asn.optional)
      |>.seq (steady_field steady_geo.optional)

/-- An event is read alike from both kinds of held trees, unless its kind is
written as an object with one key. -/
theorem event_alike {j : Json} (plain : ∀ part ∈ Event.kindParts j, ∀ m, part ≠ .object [m]) :
    Event.record.read .buffer j = Event.record.read .tree j :=
  Alike.read <| ((steady_field (Reader.steady_parsed _)).map _)
    |>.seq (steady_field (Reader.steady_parsed _))
    |>.seq (field_alike fun part mem => Reader.choice_alike _ (plain part mem))
    |>.seq (steady_field Reader.steady_uint8)
    |>.seq (steady_field steady_volume.optional)
    |>.seq (steady_field steady_endpoint)
    |>.seq (steady_field steady_endpoint)
    |>.seq (steady_field Reader.steady_string.list)
    |>.seq (steady_field Reader.steady_float)
    |>.seq (steady_field Reader.steady_string)
    |>.seq (steady_field Reader.steady_bool)
    |>.seq (steady_field Reader.steady_int64)
    |>.seq (steady_field (Reader.steady_parsed _).optional)
    |>.seq (steady_field Reader.steady_bool)
    |>.seq (steady_field Reader.steady_uint64.optional)
    |>.seq (steady_field (Reader.steady_parsed _).optional)

end Json.Record

/-! ## The frame -/

/-- The text of an event frame with a payload. -/
def Inbound.frame (seq : UInt64) (payload : String) : String :=
  "\x7b\"type\":\"event\",\"seq\":" ++ toString seq.toNat ++ ",\"payload\":" ++ payload ++ "\x7d"

/-- The tree of an event frame. -/
def Inbound.frameTree (seq : UInt64) (payload : Json) : Json :=
  .object [("type", .string "event"), ("seq", .ofNat seq.toNat), ("payload", payload)]

theorem Inbound.toList_frame (seq : UInt64) (p : String) :
    (frame seq p).toList =
      '\x7b' :: (List.intercalate [','] (List.map memberText
        [("type", quoted "event"), ("seq", Text.decimal seq.toNat), ("payload", p.toList)]) ++
          ['\x7d']) := by
  have digits : (toString seq.toNat).toList = Text.decimal seq.toNat := by
    rw [Nat.toString_eq_ofList_toDigits, String.toList_ofList, Text.decimal]
  have front : "\x7b\"type\":\"event\",\"seq\":".toList =
      '\x7b' :: (quoted "type" ++ ':' :: quoted "event" ++ ',' :: (quoted "seq" ++ [':'])) := by
    simp [quoted, escape]
  have middle : ",\"payload\":".toList = ',' :: (quoted "payload" ++ [':']) := by
    simp [quoted, escape]
  have back : "\x7d".toList = ['\x7d'] := rfl
  unfold frame
  simp only [String.toList_append, digits, front, middle, back, List.map, memberText,
    List.intercalate_cons_cons, List.intercalate_singleton, List.cons_append, List.append_assoc,
    List.nil_append]

theorem Inbound.reads_frame (seq : UInt64) {p : String} {j : Json} (reads : ofText? p = some j) :
    Reads (frame seq p).toList (frameTree seq j) := by
  rw [toList_frame]
  exact Reads.object (.cons (.string "type" "event") (.cons (.natural "seq" seq.toNat)
    (.cons ⟨rfl, ofText?_eq_some_iff.mp reads⟩ .nil)))

/-! ## The answer -/

/-- The text of an answer with events. -/
def Resync.answer (events : List String) : String := "[" ++ String.intercalate "," events ++ "]"

theorem Resync.reads_answer {events : List String} {js : List Json}
    (reads : List.Forall₂ (fun t j => ofText? t = some j) events js) :
    Reads (answer events).toList (.array js) := by
  have form : (answer events).toList =
      '[' :: (List.intercalate [','] (events.map String.toList) ++ [']']) := by
    simp [answer, String.toList_intercalate]
  rw [form]
  refine Reads.array ?_
  rw [List.forall₂_map_left_iff]
  exact reads.imp fun _ _ => ofText?_eq_some_iff.mp

/-! ## Reading the frame -/

theorem Json.holdable_word (n : UInt64) : holdable (.ofNat n.toNat) = true := by
  rw [holdable, storable_ofNat n.toNat_lt]
  rfl

theorem Inbound.read_eventRecord (n : UInt64) (j : Json) :
    eventRecord.read .buffer (.object [("seq", .ofNat n.toNat), ("payload", j)]) =
      event none n <$> Event.record.read .buffer j := by
  have known : Record.strangers eventRecord.fields [("seq", .ofNat n.toNat), ("payload", j)] =
      .good () := by
    rfl
  have members : eventRecord.ofMembers .buffer [("seq", .ofNat n.toNat), ("payload", j)] =
      ((((Checked.good event).seq (.good none)).seq (.good n)).seq
        (.ofExcept 1 (Event.record.read .buffer j))) := by
    have seq := Json.Reader.uint64_ofNat .buffer n
    rw [← Checked.ofExcept.eq_1 0 n, ← seq]
    rfl
  rw [Record.read, known, members]
  cases Event.record.read .buffer j <;> rfl

/-- The tag and what is held back of a frame. -/
theorem Inbound.untag_frame (n : UInt64) (j : Json) :
    untag "type" variants
        [("type", .string "event"), ("seq", .ofNat n.toNat), ("payload", j)] none [] =
      if holdable j then .ok (eventRecord, [("seq", .ofNat n.toNat), ("payload", j)])
      else .error .refused := by
  have variant : Reader.named variants "event" = .ok eventRecord := rfl
  have seq : ("seq" : String) ≠ "type" := by decide
  have payload : ("payload" : String) ≠ "type" := by decide
  rw [untag, if_pos rfl]
  simp only [variant]
  change untag "type" variants _ (some eventRecord) [] = _
  rw [untag, if_neg seq, if_pos (holdable_word n), untag, if_neg payload]
  split <;> rfl

theorem Inbound.readTagged_frameTree (n : UInt64) (j : Json) :
    readTagged "type" variants (frameTree n j) =
      if holdable j then event none n <$> Event.record.read .buffer j else .error .refused := by
  rw [frameTree, readTagged, untag_frame]
  split
  · exact read_eventRecord n j
  · rfl

/-- What a frame is decoded to. -/
theorem Inbound.decode_frame (n : UInt64) {p : String} {j : Json} (reads : ofText? p = some j) :
    decode (frame n p) =
      if holdable j then
        match Event.record.read .buffer j with
        | .ok e => (event none n e).validated
        | .error c => .error (.json c)
      else .error (.json .refused) := by
  rw [decode, (reads_frame n reads).document, Document.readBy, readTagged_frameTree]
  cases holdable j with
  | false => rfl
  | true => cases Event.record.read .buffer j <;> rfl

/-! ## Reading the answer -/

namespace Resync

/-- The events of an answer whose events can all be held. -/
theorem points_of_holdable {status : Nat} (answered : 200 ≤ status ∧ status < 300 ∧ status ≠ 204)
    {events : List String} {js : List Json}
    (reads : List.Forall₂ (fun t j => ofText? t = some j) events js)
    (held : ∀ j ∈ js, holdable j = true) :
    points status (answer events) = .ok (js.filterMap fun j => point? j.settled) := by
  obtain ⟨storable, shallow⟩ := array_held_iff.mpr held
  have root : (Document.read (answer events).toList).held = .ok (.array (settledItems js)) := by
    rw [(reads_answer reads).document, Document.held]
    simp only [storable, decide_eq_true shallow]
    rfl
  rw [points, content, if_neg answered.2.2, if_neg (by omega), root]
  simp only [settledItems_eq_map, List.filterMap_map, Function.comp_def]

/-- An answer with an event that cannot be held brings nothing. -/
theorem points_of_not_holdable {status : Nat}
    (answered : 200 ≤ status ∧ status < 300 ∧ status ≠ 204) {events : List String} {js : List Json}
    (reads : List.Forall₂ (fun t j => ofText? t = some j) events js)
    (held : ¬ ∀ j ∈ js, holdable j = true) :
    points status (answer events) = .error .unreadable := by
  rw [← array_held_iff] at held
  have root : (Document.read (answer events).toList).held = .error .refused := by
    rw [(reads_answer reads).document, Document.held]
    exact if_neg fun all => held (by simpa using all)
  rw [points, content, if_neg answered.2.2, if_neg (by omega), root]

/-- The event that a text brings by itself. -/
def eventOf? (t : String) : Option Event := (ofText? t).bind fun j => point? j.settled

/-- The parts of an answer, each with its tree. -/
theorem exists_forall₂_trees {texts : List String} (json : ∀ t ∈ texts, (ofText? t).isSome) :
    ∃ js, List.Forall₂ (fun t j => ofText? t = some j) texts js := by
  induction texts with
  | nil => exact ⟨[], .nil⟩
  | cons t texts ih =>
    obtain ⟨first, others⟩ := List.forall_mem_cons.mp json
    obtain ⟨j, reads⟩ := Option.isSome_iff_exists.mp first
    obtain ⟨js, all⟩ := ih others
    exact ⟨j :: js, .cons reads all⟩

/-- What the trees bring is what the texts bring one by one. -/
theorem filterMap_point? {texts : List String} {js : List Json}
    (reads : List.Forall₂ (fun t j => ofText? t = some j) texts js) :
    js.filterMap (fun j => point? j.settled) = texts.filterMap eventOf? := by
  induction reads with
  | nil => rfl
  | @cons t j texts js first others ih =>
    have alone : eventOf? t = point? j.settled := by rw [eventOf?, first, Option.bind_some]
    rw [List.filterMap_cons, List.filterMap_cons, alone, ih]

/-- All the trees can be held if the texts name such trees. -/
theorem all_holdable_iff {texts : List String} {js : List Json}
    (reads : List.Forall₂ (fun t j => ofText? t = some j) texts js) :
    (∀ j ∈ js, holdable j = true) ↔ ∀ t ∈ texts, ∀ j, ofText? t = some j → holdable j = true := by
  induction reads with
  | nil => exact iff_of_true (List.forall_mem_nil _) (List.forall_mem_nil _)
  | @cons t j texts js first others ih =>
    rw [List.forall_mem_cons, List.forall_mem_cons, ih, first]
    simp only [Option.some.injEq, forall_eq']

/-- The trees of texts that can be held, and the events they bring. -/
theorem exists_trees {texts : List String}
    (h : ∀ t ∈ texts, ∃ j, ofText? t = some j ∧ holdable j = true) :
    ∃ js, List.Forall₂ (fun t j => ofText? t = some j) texts js ∧ (∀ j ∈ js, holdable j = true) ∧
      js.filterMap (fun j => point? j.settled) = texts.filterMap eventOf? := by
  have json : ∀ t ∈ texts, (ofText? t).isSome := by
    intro t mem
    obtain ⟨j, reads, -⟩ := h t mem
    exact Option.isSome_of_eq_some reads
  obtain ⟨js, reads⟩ := exists_forall₂_trees json
  refine ⟨js, reads, (all_holdable_iff reads).mpr ?_, filterMap_point? reads⟩
  intro t mem j first
  obtain ⟨j', second, held⟩ := h t mem
  obtain rfl : j' = j := Option.some.inj (second.symm.trans first)
  exact held

end Resync

/-! ## The two ways -/

/-- What a frame accepts: what can be held and is a valid event. -/
theorem Inbound.decode_frame_eq_ok_iff {p : String} {j : Json} (reads : ofText? p = some j)
    (shallow : j.depth < nestingLimit)
    (plain : ∀ part ∈ Event.kindParts j, ∀ m, part ≠ .object [m]) (n : UInt64) (e : Event) :
    decode (frame n p) = .ok (.event none n e) ↔
      j.storable = true ∧ Resync.point? j = some e := by
  have held : holdable j = j.storable := by
    rw [holdable, decide_eq_true shallow, Bool.and_true]
  rw [decode_frame n reads, held, Record.event_alike plain, Resync.point?]
  cases j.storable with
  | false => simp
  | true =>
    cases Event.record.read .tree j with
    | error c => simp
    | ok x =>
      simp only [validated, if_true, true_and]
      cases valid : x.isValid <;> simp

/-- A frame brings its event or is refused. -/
theorem Inbound.decode_frame_cases {p : String} {j : Json} (reads : ofText? p = some j)
    (n : UInt64) :
    (∃ e, decode (frame n p) = .ok (.event none n e)) ∨ ∃ r, decode (frame n p) = .error r := by
  rw [decode_frame n reads]
  split
  · split
    · next e _ =>
      simp only [validated]
      split
      · exact .inl ⟨e, rfl⟩
      · exact .inr ⟨_, rfl⟩
    · exact .inr ⟨_, rfl⟩
  · exact .inr ⟨_, rfl⟩

/-- What an answer brings that has a payload among its events. -/
theorem Resync.points_payload {status : Nat}
    (answered : 200 ≤ status ∧ status < 300 ∧ status ≠ 204) {p : String} {j : Json}
    (reads : ofText? p = some j) (distinct : j.distinct = true) (shallow : j.depth < nestingLimit)
    {before after : List String}
    (others : ∀ t ∈ before ++ after, ∃ j, ofText? t = some j ∧ holdable j = true) :
    points status (answer (before ++ p :: after)) =
      if j.storable then
        .ok (before.filterMap eventOf? ++ (point? j).toList ++ after.filterMap eventOf?)
      else .error .unreadable := by
  obtain ⟨bs, readsBefore, heldBefore, eventsBefore⟩ :=
    exists_trees fun t mem => others t (List.mem_append_left _ mem)
  obtain ⟨as, readsAfter, heldAfter, eventsAfter⟩ :=
    exists_trees fun t mem => others t (List.mem_append_right _ mem)
  have all := List.rel_append readsBefore (.cons reads readsAfter)
  have held : holdable j = j.storable := by
    rw [holdable, decide_eq_true shallow, Bool.and_true]
  split
  · next storable =>
    rw [points_of_holdable answered all, List.filterMap_append, List.filterMap_cons, eventsBefore,
      eventsAfter, settled_of_distinct j distinct]
    · cases point? j <;> simp
    · rw [List.forall_mem_append, List.forall_mem_cons, held]
      exact ⟨heldBefore, storable, heldAfter⟩
  · next unstorable =>
    refine points_of_not_holdable answered all fun all => unstorable ?_
    rw [← held]
    exact all j (List.mem_append_right _ List.mem_cons_self)

/-- **The stream and the resync agree.** A payload that repeats no key, that
nests no deeper than can be held and that does not write its kind of attack
as an object with one key is let through as the same event by a frame and
by any readable answer that has it among its events; what a frame refuses
the answer leaves out, or else it cannot be held at all. -/
theorem Resync.agrees_with_stream {status : Nat}
    (answered : 200 ≤ status ∧ status < 300 ∧ status ≠ 204) {p : String} {j : Json}
    (reads : ofText? p = some j) (distinct : j.distinct = true) (shallow : j.depth < nestingLimit)
    (plain : ∀ part ∈ Event.kindParts j, ∀ m, part ≠ .object [m]) (n : UInt64)
    {before after : List String}
    (others : ∀ t ∈ before ++ after, ∃ j, ofText? t = some j ∧ holdable j = true) :
    (∀ e, Inbound.decode (Inbound.frame n p) = .ok (.event none n e) ↔
      points status (answer (before ++ p :: after)) =
        .ok (before.filterMap eventOf? ++ e :: after.filterMap eventOf?)) ∧
    (j.storable = true → points status (answer (before ++ p :: after)) =
      .ok (before.filterMap eventOf? ++ (point? j).toList ++ after.filterMap eventOf?)) ∧
    ((∀ e, Inbound.decode (Inbound.frame n p) ≠ .ok (.event none n e)) →
      (∃ r, Inbound.decode (Inbound.frame n p) = .error r) ∧
      (points status (answer (before ++ p :: after)) =
          .ok (before.filterMap eventOf? ++ after.filterMap eventOf?) ∨
        points status (answer (before ++ p :: after)) = .error .unreadable)) := by
  have accepts := Inbound.decode_frame_eq_ok_iff reads shallow plain n
  have brings := points_payload answered reads distinct shallow others
  refine ⟨fun e => ?_, fun storable => ?_, fun refused => ⟨?_, ?_⟩⟩
  · rw [accepts, brings]
    cases j.storable with
    | false => simp
    | true => cases point? j <;> simp
  · rw [brings, if_pos storable]
  · exact (Inbound.decode_frame_cases reads n).resolve_left fun ⟨e, taken⟩ => refused e taken
  · rw [brings]
    split
    · next storable =>
      left
      cases event : point? j with
      | none => rw [Option.toList_none, List.append_nil]
      | some e => exact absurd ((accepts e).mpr ⟨storable, event⟩) (refused e)
    · exact .inr rfl

/-- An event with little in it. -/
def Resync.flood : Json :=
  .object [("id", .string "6f9619ff-8b86-d011-b42d-00cf4fc964ff"),
    ("ts", .string "2024-02-29T23:59:60Z"), ("attack_type", .string "DDoS"),
    ("severity", .ofNat 10), ("src", .object []), ("dst", .array [.null, .null, .null]),
    ("confidence", .ofNat 1), ("ttl_ms", .ofNat 1000)]

theorem Resync.ofText?_flood : ofText? (String.ofList flood.text) = some flood := by
  have nulls := Reads.array (.cons .null (.cons .null (.cons .null .nil)))
  have members := Reads.object <|
    .cons (.string "id" "6f9619ff-8b86-d011-b42d-00cf4fc964ff") <|
    .cons (.string "ts" "2024-02-29T23:59:60Z") <| .cons (.string "attack_type" "DDoS") <|
    .cons (.natural "severity" 10) <|
    .cons (a := ("src", _)) (b := ("src", _)) ⟨rfl, .object .nil⟩ <|
    .cons (a := ("dst", _)) (b := ("dst", _)) ⟨rfl, nulls⟩ <| .cons (.natural "confidence" 1) <|
    .cons (.natural "ttl_ms" 1000) .nil
  rw [ofText?_eq_some_iff, String.toList_ofList]
  exact members

theorem Resync.agrees_with_stream_flood :
    ∃ e, Inbound.decode (Inbound.frame 7 (String.ofList flood.text)) = .ok (.event none 7 e) ∧
      points 200 (answer [String.ofList flood.text, "null"]) = .ok [e] := by
  have null : ofText? "null" = some .null := ofText?_eq_some_iff.mpr Reads.null
  have others : ∀ t ∈ [] ++ ["null"], ∃ j, ofText? t = some j ∧ holdable j = true := by
    intro t mem
    obtain rfl := List.mem_singleton.mp mem
    exact ⟨.null, null, rfl⟩
  have plain : ∀ part ∈ Event.kindParts flood, ∀ m, part ≠ .object [m] := by
    have kind : Event.kindParts flood = [.string "DDoS"] := rfl
    intro part mem m same
    rw [kind, List.mem_singleton] at mem
    cases mem.symm.trans same
  have answered : 200 ≤ 200 ∧ 200 < 300 ∧ 200 ≠ 204 := by decide
  obtain ⟨accepts, brings, -⟩ := agrees_with_stream answered ofText?_flood (by decide +kernel)
    (by decide +kernel) plain 7 others
  have valid : (point? flood).isSome = true := by decide +kernel
  obtain ⟨e, event⟩ := Option.isSome_iff_exists.mp valid
  have nothing : ["null"].filterMap eventOf? = [] := by
    rw [List.filterMap_cons, eventOf?, null]
    rfl
  have both := brings (by decide +kernel)
  rw [event, nothing] at both
  refine ⟨e, (accepts e).mpr ?_, both⟩
  rw [nothing]
  exact both

end AttackMap
