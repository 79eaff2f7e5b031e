import AttackMap.Proofs.Client.Admission
import AttackMap.Proofs.Frame.Families
import AttackMap.Proofs.Loop.Attuned

/-!
# Admission to a loop

In a loop no event is told to the client that has not passed a gate: the
session tells only messages that it has decoded, and a batch waits in two
places, with its fetch and in the queue, between the answer and the client
(`Admitted`). So what is stored is in range after any run, and
`stores_valid` says it of clients and of loops.
-/

namespace AttackMap

/-- A batch comes of an answer that was read. -/
def Move.Served : Move → Prop
  | .happens (.fetched (.ok events)) => ∃ status body, Resync.points status body = .ok events
  | _ => True

namespace Loop

/-- Events in range are held, and others wait nowhere. -/
structure Admitted (l : Loop) : Prop where
  held : l.client.store.InRange
  fetched : ∀ events, l.fetch = some (.delivering events) → ∀ e ∈ events, e.InRange
  queued : ∀ batch ∈ l.batches, ∀ e ∈ batch, e.InRange

theorem Admitted.start (staleAfter : UInt64) (filter : Filter) (resyncs : Bool) :
    Admitted (start staleAfter filter resyncs) :=
  ⟨Client.start_inRange staleAfter filter, nofun, List.forall_mem_nil _⟩

variable {l l' : Loop} {hears : Bool} {now : Millis} {deed : Deed Float}

/-- An answer that is read, and a batch that gets into the queue. -/
theorem Admitted.happen (h : Admitted l) {x : Happening} (served : (Move.happens x).Served) :
    Admitted (l.happen x) := by
  cases x with
  | fetched answer =>
    unfold Loop.happen
    dsimp only
    split
    · next events _ =>
      obtain ⟨status, body, brings⟩ := served
      refine ⟨h.held, ?_, h.queued⟩
      intro delivered same
      cases same
      exact Resync.inRange_of_points brings
    · exact ⟨h.held, nofun, h.queued⟩
    · exact h
  | queued =>
    unfold Loop.happen
    dsimp only
    split
    · next events delivering =>
      split
      · refine ⟨h.held, nofun, ?_⟩
        intro batch mem
        rcases List.mem_append.mp mem with waiting | last
        · exact h.queued batch waiting
        · rw [List.mem_singleton.mp last]
          exact h.fetched events delivering
      · exact h
    · exact h
  | signal | call | strikes => exact ⟨h.held, h.fetched, h.queued⟩

/-- What a turn brings the client has passed a gate. -/
theorem Admitted.arrivals (h : Admitted l) (does : Turns hears l now l' deed) (malformed : Tally) :
    ∀ e ∈ (deed.operations now malformed).flatMap Client.Operation.arrivals, e.InRange := by
  intro e mem
  cases does with
  | attends _ _ _ does =>
    cases does with
    | hears told reply =>
      have answers := l.answers_asking
      rw [reply] at answers
      cases answers with
      | tells => cases mem
      | brings m text decodes =>
        cases m with
        | event t seq e' =>
          obtain rfl : e = e' := List.mem_singleton.mp mem
          exact Inbound.inRange_of_decode decodes
        | _ => cases mem
    | applies _ batch rest queue =>
      have brought : e ∈ batch := by
        rw [Deed.operations, List.flatMap_singleton] at mem
        exact mem
      exact h.queued batch (by rw [queue]; exact List.mem_cons_self) e brought
    | _ => cases mem
  | _ => cases mem

theorem Admitted.turns (h : Admitted l) (does : Turns hears l now l' deed) : Admitted l' := by
  have held : l'.client.store.InRange := by
    rw [does.client]
    exact Client.inRange_after h.held (h.arrivals does _)
  cases does with
  | stays | sends | withholds => exact ⟨held, h.fetched, h.queued⟩
  | closes => exact ⟨held, nofun, h.queued⟩
  | attends _ _ _ does =>
    cases does with
    | ends => exact ⟨held, nofun, h.queued⟩
    | applies _ batch rest queue =>
      refine ⟨held, h.fetched, fun other mem => h.queued other ?_⟩
      rw [queue]
      exact List.mem_cons_of_mem batch mem
    | asks => exact ⟨held, nofun, h.queued⟩
    | _ => exact ⟨held, h.fetched, h.queued⟩

theorem admitted_after {c : Course} (h : Admitted c.loop) (moves : List Move)
    (served : ∀ m ∈ moves, m.Served) : Admitted (c.after moves).loop := by
  induction moves generalizing c with
  | nil => exact h
  | cons m rest ih =>
    obtain ⟨first, others⟩ := List.forall_mem_cons.mp served
    refine ih (c := (c.move m).1) ?_ others
    cases m with
    | happens x => exact h.happen first
    | turns hears now => exact h.turns (turns_turnAs _ c.loop now)

end Loop

/-- **Only valid events are stored.** Whatever texts a server sends over the
stream, whatever it answers to a resync and whatever else a client is told or
asked for, every event held is in range, and so it is in a loop. So no frame
moves the severity of an event that it draws. And a batch whose points can
all be held as values loses those that are no events in range, and no
others: what is left is what it was and stands in its order. If one of them
cannot be held, all are lost. -/
theorem Client.stores_valid (staleAfter : UInt64) (filter : Filter) (intakes : List Intake) :
    let last := (start staleAfter filter).after (intakes.flatMap Intake.operations)
    (∀ e ∈ last.store.events, e.InRange) ∧
    (∀ e ∈ last.store.snapshot.events, e.clampedSeverity = e.severity) ∧
    (∀ f now, ∀ v ∈ (VisibleEvent.visible last.store.snapshot.events f now :
      List (VisibleEvent Float)), v.severity = v.event.severity) ∧
    (∀ status, Resync.Pointwise status) ∧
    ∀ resyncs (moves : List Move), (∀ m ∈ moves, m.Served) →
      ∀ e ∈ ((Course.of (.start staleAfter filter resyncs)).after moves).loop.client.store.events,
        e.InRange := by
  intro last
  have inRange : last.store.InRange := inRange_after_intakes staleAfter filter intakes
  refine ⟨inRange, fun e held => (inRange e held).clampedSeverity_eq, ?_, Resync.pointwise, ?_⟩
  · intro f now v drawn
    have held := VisibleEvent.event_mem_of_mem_newest drawn
    exact (inRange v.event (List.mem_filter.mp held).1).clampedSeverity_eq
  · intro resyncs moves served
    exact (Loop.admitted_after (.start staleAfter filter resyncs) moves served).held

/-- An answer with one event in it. -/
theorem Resync.points_flood :
    ∃ e, points 200 (answer [String.ofList flood.text]) = .ok [e] ∧
      eventOf? (String.ofList flood.text) = some e := by
  have brings : points 200 (answer [String.ofList flood.text]) =
      .ok ([String.ofList flood.text].filterMap eventOf?) := by
    refine (pointwise 200).answer (by decide) _ ?_ ?_
    · intro t mem
      rw [List.mem_singleton.mp mem, ofText?_flood]
      rfl
    · intro t mem j reads
      rw [List.mem_singleton.mp mem, ofText?_flood] at reads
      rw [← Option.some.inj reads]
      decide +kernel
  have whole : flood.settled = flood := Json.settled_of_distinct _ (by decide +kernel)
  have valid : (point? flood).isSome = true := by decide +kernel
  obtain ⟨e, event⟩ := Option.isSome_iff_exists.mp valid
  have alone : eventOf? (String.ofList flood.text) = some e := by
    rw [eventOf?, ofText?_flood, Option.bind_some, whole, event]
  rw [List.filterMap_cons_some alone, List.filterMap_nil] at brings
  exact ⟨e, brings, alone⟩

/-- The answer to a client, and its batch on the way through a loop. -/
theorem Client.stores_valid_flood :
    ∃ e, ((start 10000 .initial).after ([Intake.answer 200
        (Resync.answer [String.ofList Resync.flood.text])].flatMap
          Intake.operations)).store.events = [e] ∧ e.InRange ∧
      (∀ m ∈ [Move.happens (.fetched (.ok [e])), .happens .queued, .turns true 0], m.Served) ∧
      ∀ x ∈ ((Course.of (.start 10000 .initial true)).after [.happens (.fetched (.ok [e])),
        .happens .queued, .turns true 0]).loop.client.store.events, x.InRange := by
  obtain ⟨e, brings, -⟩ := Resync.points_flood
  obtain ⟨inRange, -, -, -, loops⟩ := stores_valid 10000 .initial
    [Intake.answer 200 (Resync.answer [String.ofList Resync.flood.text])]
  have told : [Intake.answer 200 (Resync.answer [String.ofList Resync.flood.text])].flatMap
      Intake.operations = [.batch [e]] := by
    rw [List.flatMap_singleton, Intake.operations, brings]
  have served : ∀ m ∈ [Move.happens (.fetched (.ok [e])), .happens .queued, .turns true 0],
      m.Served := by
    simp only [List.forall_mem_cons]
    exact ⟨⟨200, _, brings⟩, trivial, trivial, List.forall_mem_nil _⟩
  rw [told] at inRange ⊢
  exact ⟨e, rfl, inRange e (List.mem_singleton_self e), served, loops true _ served⟩

/-- A number beyond the doubles beside the event. Point by point the two bring
the event, and together they bring nothing. -/
theorem Resync.flood_lost_beside_overflow :
    ∃ e, points 200 (answer [String.ofList flood.text]) = .ok [e] ∧
      Json.ofText? "1e400" = some (.number ⟨false, 1, 0, some 400⟩) ∧
      [String.ofList flood.text, "1e400"].filterMap eventOf? = [e] ∧
      points 200 (answer [String.ofList flood.text, "1e400"]) = .error .unreadable := by
  obtain ⟨e, brings, alone⟩ := points_flood
  have overflow : Json.ofText? "1e400" = some (.number ⟨false, 1, 0, some 400⟩) :=
    Json.ofText?_eq_some_iff.mpr (.number rfl)
  have nothing : eventOf? "1e400" = none := by
    rw [eventOf?, overflow]
    rfl
  have unheld : Json.holdable (.number ⟨false, 1, 0, some 400⟩) = false := by decide +kernel
  refine ⟨e, brings, overflow, ?_, (pointwise 200).refusal (by decide) _ ?_ ?_⟩
  · rw [List.filterMap_cons_some alone, List.filterMap_cons_none nothing, List.filterMap_nil]
  · simp only [List.forall_mem_cons, ofText?_flood, overflow, Option.isSome_some, true_and]
    exact List.forall_mem_nil _
  · intro held
    have last := held "1e400" (List.mem_cons_of_mem _ List.mem_cons_self) _ overflow
    rw [unheld] at last
    cases last

end AttackMap
