import AttackMap.Message
import AttackMap.Proofs.Decimal.Shortest
import AttackMap.Proofs.Json.Envelope
import AttackMap.Proofs.Json.Inverse
import AttackMap.Proofs.Json.Printed

/-!
# What the server gets

A message to the server is written as one JSON object and read back as the
message it was, whatever is in it: figures over the whole of their words,
kinds of attack in any number and order, any text for a country
(`Outbound.decode_encode`). The rate of a report is the one thing that need
not arrive, since a rate that is no number is written as `null`.
-/

namespace AttackMap

open Json

/-! ## The fields -/

theorem Window.inverts_reader : Reader.Inverts reader fun w => .string w.name :=
  Reader.inverts_choice fun w => by cases w <;> rfl

theorem AttackKind.inverts_reader : Reader.Inverts reader toJson :=
  Reader.inverts_choice fun k => by cases k <;> rfl

namespace Outbound

/-- The rate in a message. -/
def rate? : Outbound → Option Float
  | .telemetry fps _ _ => some fps
  | .setFilters .. => none

theorem storable_kinds (kinds : List AttackKind) :
    (Json.ofList AttackKind.toJson kinds).storable = true := by
  rw [Json.ofList, storable, storableItems_eq_all, List.all_map, List.all_eq_true]
  exact fun k _ => rfl

theorem storable_country (country : Option String) :
    (Json.ofOption .string country).storable = true := by
  cases country <;> rfl

/-! ## The records -/

theorem message?_telemetry {fps : Float} {n : Numeral} (written : Json.ofFloat fps = .number n)
    (readsBack : n.toFloat? = some fps) (queued dropped : UInt64) :
    (telemetry fps queued dropped).toJson.storable = true ∧
      message? "type" variants (telemetry fps queued dropped).toJson =
        some (telemetry fps queued dropped) := by
  have held : (telemetry fps queued dropped).toJson.storable = true := by
    simp only [toJson, storable, storableMembers, written, readsBack,
      storable_ofNat queued.toNat_lt, storable_ofNat dropped.toNat_lt]
    rfl
  have rate : Reader.float .buffer (Json.ofFloat fps) = .ok fps := by
    rw [written, Reader.float, readsBack]
    rfl
  refine ⟨held, message?_object held rfl rfl ?_⟩
  refine Record.taken_seq_eq_some (Record.taken_seq_eq_some (Record.taken_map_eq_some _ ?_) ?_) ?_
  · exact Record.taken_field_eq_some rfl rate
  · exact Record.taken_field_eq_some rfl (Reader.uint64_ofNat _ queued)
  · exact Record.taken_field_eq_some rfl (Reader.uint64_ofNat _ dropped)

theorem message?_setFilters (window : Window) (minSeverity : UInt8) (majorOnly : Bool)
    (kinds : List AttackKind) (country : Option String) :
    (setFilters window minSeverity majorOnly kinds country).toJson.storable = true ∧
      message? "type" variants (setFilters window minSeverity majorOnly kinds country).toJson =
        some (setFilters window minSeverity majorOnly kinds country) := by
  have severity : minSeverity.toNat < 2 ^ 64 := Nat.lt_trans minSeverity.toNat_lt (by decide)
  have held :
      (setFilters window minSeverity majorOnly kinds country).toJson.storable = true := by
    simp only [toJson, storable, storableMembers, storable_ofNat severity, storable_kinds,
      storable_country]
    rfl
  refine ⟨held, message?_object held rfl rfl ?_⟩
  refine Record.taken_seq_eq_some (Record.taken_seq_eq_some (Record.taken_seq_eq_some
    (Record.taken_seq_eq_some (Record.taken_map_eq_some _ ?_) ?_) ?_) ?_) ?_
  · exact Record.taken_field_eq_some rfl (Window.inverts_reader _ window)
  · exact Record.taken_field_eq_some rfl (Reader.uint8_ofNat _ minSeverity)
  · exact Record.taken_field_eq_some rfl (Reader.inverts_bool _ majorOnly)
  · exact Record.taken_field_eq_some rfl (AttackKind.inverts_reader.list _ kinds)
  · exact Record.taken_field_eq_some rfl
      (Reader.inverts_string.optional (fun _ => nofun) _ country)

/-- A message whose rate is finite is one that is held and read back. -/
theorem message?_toJson (m : Outbound) (finite : ∀ fps ∈ m.rate?, fps.isFinite = true) :
    m.toJson.storable = true ∧ message? "type" variants m.toJson = some m := by
  cases m with
  | telemetry fps queued dropped =>
    obtain ⟨n, written, readsBack⟩ := Numeral.exists_ofFloat (finite fps rfl)
    exact message?_telemetry (by rw [Json.ofFloat, written]; rfl) readsBack queued dropped
  | setFilters => exact message?_setFilters ..

/-- A message is shallow, whatever is in it. -/
theorem depth_toJson (m : Outbound) : m.toJson.depth ≤ nestingLimit := by
  cases m with
  | telemetry fps queued dropped =>
    have rate : (Json.ofFloat fps).depth = 0 := by
      rw [Json.ofFloat]
      cases Numeral.ofFloat? fps <;> rfl
    simp only [toJson, depth, depthMembers, rate, Json.ofNat, Json.ofInt]
    decide
  | setFilters window minSeverity majorOnly kinds country =>
    have items : depthItems (kinds.map AttackKind.toJson) = 0 := by
      induction kinds with
      | nil => rfl
      | cons k kinds ih => rw [List.map_cons, depthItems, ih]; rfl
    have text : (Json.ofOption .string country).depth = 0 := by cases country <;> rfl
    simp only [toJson, depth, depthMembers, Json.ofList, items, text, Json.ofNat, Json.ofInt]
    decide

/-! ## The text -/

/-- **What the server gets.** The text of a message with a finite rate has no
control character of JSON's in it, is one JSON object from its start to its
end, and is read back as the message. -/
theorem decode_encode (m : Outbound) (finite : ∀ fps ∈ m.rate?, fps.isFinite = true) :
    (∀ c ∈ m.encode.toList, 0x20 ≤ c.toNat) ∧
      (∃ members, ofText? m.encode = some (.object members)) ∧ decode m.encode = .ok m := by
  obtain ⟨held, known⟩ := message?_toJson m finite
  have reads : Reads m.encode.toList m.toJson := by
    rw [encode, String.toList_ofList]
    exact (spells_text m.toJson held).reads
  refine ⟨?_, ⟨_, ofText?_eq_some_iff.mpr reads⟩, ?_⟩
  · rw [encode, String.toList_ofList]
    exact visible_text m.toJson
  · have read : ofJson m.toJson = .ok m := readTagged_eq_ok_iff.mpr ⟨known, depth_toJson m⟩
    rw [decode, reads.document, Document.readBy, read]
    rfl

theorem decode_encode_report :
    decode (telemetry 59.94 3 0xffffffffffffffff).encode =
      .ok (telemetry 59.94 3 0xffffffffffffffff) := by
  have finite : ∀ fps ∈ (telemetry 59.94 3 0xffffffffffffffff).rate?, fps.isFinite = true := by
    intro fps rate
    cases rate
    decide
  exact (decode_encode (telemetry 59.94 3 0xffffffffffffffff) finite).2.2

end Outbound

end AttackMap
