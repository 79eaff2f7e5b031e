import AttackMap.Proofs.Binary64.Order
import AttackMap.Proofs.Client.Parts
import AttackMap.Proofs.Json.Gives
import AttackMap.Proofs.Message.Rewriting
import AttackMap.Proofs.Resync.TwoWays

/-!
# Admission

Two gates lead to the store: a frame of the stream is decoded, and an answer
to a resync is read. Behind either gate every event has its figures in range
(`Event.InRange`), and a confidence that is not a number cannot come in,
since no text names one. Placing an event keeps the store in range whether it
replaces, pushes out or is one of a batch, so the store is in range after any
run (`Client.inRange_after_intakes`), whatever the server sends.

A batch is held as a value before its points are looked at. So each point
brings its event or nothing, by itself, only if all of them can be held: a
point with a number beyond the doubles, with a half of a surrogate pair or
with too many levels fails the answer, and the valid points beside it are
lost (`Resync.Pointwise`).
-/

namespace AttackMap

open Json

/-! ## Figures in range -/

/-- The figures of an event lie in their ranges. -/
structure Event.InRange (e : Event) : Prop where
  severity : 1 ≤ e.severity ∧ e.severity ≤ 10
  confidence : (0 : Float) ≤ e.confidence ∧ e.confidence ≤ (1 : Float)

/-- A double is read from the name of a finite one. -/
theorem Json.Reader.gives_finite : Reader.float.Gives fun x => x.isFinite = true := by
  intro s j x read
  unfold Reader.float at read
  split at read
  · next n =>
    cases value : n.toFloat? with
    | none =>
      rw [value] at read
      cases read
    | some y =>
      rw [value] at read
      cases read
      exact Binary64.isFinite_of_ofDecimal? value
  · cases read

namespace Event

/-- The confidence that an event is read with is finite, in whatever form and
place the event stands. -/
theorem gives_finite : Event.record.read.Gives fun e => e.confidence.isFinite = true := by
  apply Record.Gives.read
  -- the seven fields after the confidence and the eight before it are no matter
  refine Record.Gives.seq_any <| .seq_any <| .seq_any <| .seq_any <| .seq_any <| .seq_any <|
    .seq_any <| .seq ?_ (.required Reader.gives_finite "confidence")
  refine Record.Gives.seq_any <| .seq_any <| .seq_any <| .seq_any <| .seq_any <| .seq_any <|
    .seq_any <| .map_any ?_
  intro id detected kind severity volume src dst tags confidence finite
  intros
  exact finite

variable {e : Event}

/-- Of finite figures, those that pass validation are those in range. -/
theorem isValid_iff_inRange (finite : e.confidence.isFinite = true) :
    e.isValid = true ↔ e.InRange := by
  have above : (1 : Float).isFinite = true := by decide
  have below : (0 : Float).isFinite = true := by decide
  have high := Binary64.le_iff_not_lt finite above
  have low := Binary64.le_iff_not_lt below finite
  have weak : (1 : UInt8) ≤ e.severity ↔ ¬ e.severity < 1 := UInt8.not_lt.symm
  have strong : e.severity ≤ 10 ↔ ¬ maxSeverity < e.severity := UInt8.not_lt.symm
  unfold isValid faults
  constructor
  · intro valid
    rw [List.isEmpty_iff, List.append_eq_nil_iff] at valid
    obtain ⟨confidence, severity⟩ := valid
    split at confidence
    · cases confidence
    · next within =>
      split at severity
      · cases severity
      · next within' =>
        rw [not_or] at within within'
        exact ⟨⟨weak.mpr within'.1, strong.mpr within'.2⟩, low.mpr within.2, high.mpr within.1⟩
  · rintro ⟨⟨atLeast, atMost⟩, positive, share⟩
    rw [if_neg (not_or.mpr ⟨high.mp share, low.mp positive⟩),
      if_neg (not_or.mpr ⟨weak.mp atLeast, strong.mp atMost⟩)]
    rfl

/-- A severity in range is not moved. -/
theorem InRange.clampedSeverity_eq (h : e.InRange) : e.clampedSeverity = e.severity := by
  have strong : ¬ maxSeverity < e.severity := UInt8.not_lt.mpr h.severity.2
  rw [clampedSeverity, if_neg (UInt8.not_lt.mpr h.severity.1), if_neg strong]

end Event

/-! ## The gate of the stream -/

namespace Inbound

/-- What a message must be for its event to be read with a finite confidence. -/
def IsFinite : Inbound → Prop
  | .event _ _ e => e.confidence.isFinite = true
  | _ => True

theorem eventRecord_gives : eventRecord.Gives IsFinite :=
  .seq (.seq_any <| .map_any fun _ _ _ finite => finite) (.required Event.gives_finite "payload")

/-- Whatever is read with its tag is finite. -/
theorem isFinite_of_readTagged {j : Json} {m : Inbound}
    (reads : readTagged "type" variants j = .ok m) : m.IsFinite := by
  obtain ⟨-, name, -, record, known, read⟩ :=
    message?_eq_some_iff.mp (readTagged_eq_ok_iff.mp reads).1
  have each : ∀ p ∈ variants, p.2.Gives IsFinite := by
    rw [variants]
    simp only [List.forall_mem_cons]
    exact ⟨.seq_any <| .map_any fun _ _ => trivial,
      .seq_any <| .seq_any <| .map_any fun _ _ _ => trivial, eventRecord_gives,
      .seq_any <| .seq_any <| .map_any fun _ _ _ => trivial, List.forall_mem_nil _⟩
  exact (each (name, record) (mem_of_lookup known)).read _ _ m read

/-- Behind the gate of the stream an event is in range. -/
theorem inRange_of_decode {text : String} {t : Option Timestamp} {seq : UInt64} {e : Event}
    (decodes : decode text = .ok (.event t seq e)) : e.InRange := by
  rw [decode] at decodes
  split at decodes
  · next m reads =>
    have finite := isFinite_of_readTagged (Document.readBy_eq_ok_iff.mp reads).1
    unfold validated at decodes
    split at decodes
    · next e' =>
      split at decodes
      · next valid =>
        cases decodes
        exact (Event.isValid_iff_inRange finite).mp valid
      · cases decodes
    · next other =>
      cases decodes
      exact absurd rfl (other t seq e)
  · cases decodes

end Inbound

/-! ## The gate of the resync -/

namespace Resync

/-- A tree is a point if it reads as an event and the event is in range. -/
theorem point?_eq_some_iff {j : Json} {e : Event} :
    point? j = some e ↔ Event.record.read .tree j = .ok e ∧ e.InRange := by
  rw [point?]
  cases read : Event.record.read .tree j with
  | error c => simp
  | ok x =>
    have valid := Event.isValid_iff_inRange (Event.gives_finite .tree j x read)
    simp only [Option.ite_none_right_eq_some, Option.some.injEq, Except.ok.injEq]
    rw [valid]
    constructor
    · rintro ⟨inRange, rfl⟩
      exact ⟨rfl, inRange⟩
    · rintro ⟨rfl, inRange⟩
      exact ⟨inRange, rfl⟩

/-- A batch is what the items of an array bring one by one. -/
theorem exists_items_of_points {status : Nat} {body : String} {events : List Event}
    (brings : points status body = .ok events) :
    ∃ items, (Document.read (content status body).toList).held = .ok (.array items) ∧
      events = items.filterMap point? := by
  rw [points] at brings
  split at brings
  · cases brings
  · split at brings
    · next items value =>
      cases brings
      exact ⟨items, value, rfl⟩
    · cases brings

/-- Behind the gate of the resync all events are in range. -/
theorem inRange_of_points {status : Nat} {body : String} {events : List Event}
    (brings : points status body = .ok events) : ∀ e ∈ events, e.InRange := by
  intro e mem
  obtain ⟨items, -, rfl⟩ := exists_items_of_points brings
  obtain ⟨j, -, point⟩ := List.mem_filterMap.mp mem
  exact (point?_eq_some_iff.mp point).2

end Resync

/-! ## The parts of an answer -/

namespace Resync

/-- How the points of a batch stand to its events. -/
structure Pointwise (status : Nat) : Prop where
  /-- A batch has the events of its points in their order. -/
  batch : ∀ body events, points status body = .ok events →
    ∃ items, (Document.read (content status body).toList).held = .ok (.array items) ∧
      events = items.filterMap point?
  /-- A point has an event of its own, if it reads as one and that is in range. -/
  point : ∀ j e, point? j = some e ↔ Event.record.read .tree j = .ok e ∧ e.InRange
  /-- Written down one after the other, points that can all be held bring what
  each text brings. -/
  answer : 200 ≤ status ∧ status < 300 ∧ status ≠ 204 →
    ∀ texts, (∀ t ∈ texts, (ofText? t).isSome) →
      (∀ t ∈ texts, ∀ j, ofText? t = some j → holdable j = true) →
      points status (answer texts) = .ok (texts.filterMap eventOf?)
  /-- One point that cannot be held fails the answer, whatever the others are. -/
  refusal : 200 ≤ status ∧ status < 300 ∧ status ≠ 204 →
    ∀ texts, (∀ t ∈ texts, (ofText? t).isSome) →
      (¬ ∀ t ∈ texts, ∀ j, ofText? t = some j → holdable j = true) →
      points status (Resync.answer texts) = .error .unreadable

/-- **Every point of a batch goes by itself** if all of them can be held, and
else none comes through. -/
theorem pointwise (status : Nat) : Pointwise status where
  batch _ _ brings := exists_items_of_points brings
  point _ _ := point?_eq_some_iff
  answer := by
    intro answered texts json held
    obtain ⟨js, reads⟩ := exists_forall₂_trees json
    rw [← filterMap_point? reads]
    exact points_of_holdable answered reads ((all_holdable_iff reads).mpr held)
  refusal := by
    intro answered texts json unheld
    obtain ⟨js, reads⟩ := exists_forall₂_trees json
    rw [← all_holdable_iff reads] at unheld
    exact points_of_not_holdable answered reads unheld

end Resync

/-! ## The store -/

namespace Store

/-- Every event held is in range. -/
def InRange (s : Store) : Prop := ∀ e ∈ s.events, e.InRange

/-- An event that is there after a replacement is the new one or was there
before. -/
theorem mem_or_eq_of_mem_replaceFirst {e x : Event} {es : List Event}
    (mem : x ∈ replaceFirst e es) : x = e ∨ x ∈ es := by
  induction es with
  | nil => cases mem
  | cons y rest ih =>
    rw [replaceFirst] at mem
    split at mem
    · exact (List.mem_cons.mp mem).imp_right (List.mem_cons_of_mem y)
    · rcases List.mem_cons.mp mem with rfl | later
      · exact .inr List.mem_cons_self
      · exact (ih later).imp_right (List.mem_cons_of_mem y)

/-- One event, wherever it is placed and whatever leaves for it. -/
theorem InRange.upsert {s : Store} (h : s.InRange) {e : Event} (inRange : e.InRange) :
    (s.upsert e).1.InRange := by
  intro x mem
  cases held : s.holds e.id with
  | true =>
    rw [events_upsert_of_holds held] at mem
    rcases mem_or_eq_of_mem_replaceFirst mem with rfl | before
    · exact inRange
    · exact h x before
  | false =>
    rw [events_upsert_of_new held] at mem
    rcases List.mem_append.mp (List.mem_of_mem_drop mem) with before | last
    · exact h x before
    · rw [List.mem_singleton.mp last]
      exact inRange

/-- Any number of events. -/
theorem InRange.gives {s : Store} (h : s.InRange) {events : List Event}
    (inRange : ∀ e ∈ events, e.InRange) : (s.after (gives events)).InRange := by
  induction events generalizing s with
  | nil => exact h
  | cons e events ih =>
    obtain ⟨first, others⟩ := List.forall_mem_cons.mp inRange
    rw [after_gives_cons]
    exact ih (h.upsert first) others

end Store

/-! ## Runs -/

namespace Client

/-- A client into which only events in range come. -/
theorem inRange_after {c : Client} (h : c.store.InRange) {ops : List Operation}
    (arrive : ∀ e ∈ ops.flatMap Operation.arrivals, e.InRange) :
    (c.after ops).store.InRange := by
  intro e mem
  rw [events_after] at mem
  exact h.gives arrive e mem

/-- What comes to a client from outside. -/
inductive Intake where
  /-- A text over the stream. -/
  | frame (text : String) (now : Millis)
  /-- The answer to a resync. -/
  | answer (status : Nat) (body : String)
  /-- Anything else, which brings no events. -/
  | other (op : Operation) (brings : op.arrivals = [])

/-- What a client is told of it: the message of a frame that is decoded, the
events of an answer that is read. -/
def Intake.operations : Intake → List Operation
  | .frame text now =>
    match Inbound.decode text with
    | .ok m => [.message m now]
    | .error _ => []
  | .answer status body =>
    match Resync.points status body with
    | .ok events => [.batch events]
    | .error _ => []
  | .other op _ => [op]

/-- Whatever comes from outside has passed a gate. -/
theorem Intake.inRange_of_mem_arrivals {i : Intake} {e : Event}
    (mem : e ∈ i.operations.flatMap Operation.arrivals) : e.InRange := by
  cases i with
  | frame text now =>
    rw [operations] at mem
    split at mem
    · next m decodes =>
      rw [List.flatMap_singleton] at mem
      cases m with
      | event t seq e' =>
        rw [List.mem_singleton.mp mem]
        exact Inbound.inRange_of_decode decodes
      | _ => cases mem
    · cases mem
  | answer status body =>
    rw [operations] at mem
    split at mem
    · next events brings =>
      rw [List.flatMap_singleton] at mem
      exact Resync.inRange_of_points brings e mem
    · cases mem
  | other op brings =>
    rw [operations] at mem
    rw [List.flatMap_singleton, brings] at mem
    cases mem

theorem start_inRange (staleAfter : UInt64) (filter : Filter) :
    (start staleAfter filter).store.InRange :=
  List.forall_mem_nil _

/-- A client to which events come through the gates alone. -/
theorem inRange_after_intakes (staleAfter : UInt64) (filter : Filter) (intakes : List Intake) :
    ((start staleAfter filter).after (intakes.flatMap Intake.operations)).store.InRange := by
  apply inRange_after (start_inRange staleAfter filter)
  intro e mem
  rw [List.flatMap_assoc] at mem
  obtain ⟨i, -, within⟩ := List.mem_flatMap.mp mem
  exact Intake.inRange_of_mem_arrivals within

end Client

end AttackMap
