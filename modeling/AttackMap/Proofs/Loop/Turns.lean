import AttackMap.Loop.Basic
import AttackMap.Proofs.Session.Moves

/-!
# The turns of the loop

What a turn can do is said once, in two steps. A turn first looks to what
it may not put off: a report that is being sent, and the close
(`turns_turnAs`). Then it attends to the first thing that is pending
(`Attends`); only where no event, batch or change is pending (`Quiet`) does
a clock have its turn.

A turn that finds nothing waits, and the close may come while it does. As a
rule the close then wakes it; but a close wakes one task, and where others
wait for it too the turn may be woken by something else. A turn that is
woken like that does not look at the close again (`turnAs`, where `hears`
is whether it does), and the next one does. So a run keeps the loop in
which the turn that waits began (`Course`).
-/

namespace AttackMap

/-! ## Deeds -/

/-- Whether a turn did nothing. -/
def Deed.isIdle {α : Type} : Deed α → Bool
  | .idle => true
  | _ => false

/-- Whether a deed is one that a clock brings about. -/
def Deed.isTimed {α : Type} : Deed α → Bool
  | .reported _ | .polled | .drew .. | .asked _ => true
  | _ => false

/-! ## Sessions that are asked -/

namespace Session

theorem Sound.listen {s : Session} (h : Sound s) (signals : List Signal) :
    Sound (s.listen signals).1 := by
  induction signals generalizing s with
  | nil => exact h
  | cons signal rest ih =>
    have heard := (h.hear signal).1
    rw [Session.listen]
    split
    · next s' e told =>
      rw [told] at heard
      exact heard
    · next s' told =>
      rw [told] at heard
      exact ih heard

theorem Sound.next {s : Session} (h : Sound s) (signals : List Signal) :
    Sound (s.next signals).1 := by
  have asked := h.ask.1
  rw [Session.next]
  split
  · next s' told =>
    rw [told] at asked
    exact asked.listen signals
  · next s' reply _ told =>
    rw [told] at asked
    exact asked

end Session

namespace Loop

variable {α : Type} [Scalar α]

/-! ## Attending to what is pending -/

/-- The reply of the session if it is asked now. -/
def reply (l : Loop) : Session.Reply := (l.session.next l.signals).2.1

/-- The loop when it has asked its session. -/
def asking (l : Loop) : Loop :=
  { l with session := (l.session.next l.signals).1, signals := (l.session.next l.signals).2.2 }

/-- What a turn does that need not send or close. -/
def attend (l : Loop) (now : Millis) : Loop × Deed α :=
  match l.reply with
  | .finished => (l.asking.finish, .closed)
  | .event e => ({ l.asking with client := l.client.onSession e now }, .heard e)
  | .pending => l.asking.innerTurn now

theorem turn_eq_attend {l : Loop} (running : l.finished = false) (clear : l.outbox = [])
    (opened : l.control.closed = false) (now : Millis) :
    (l.turn now : Loop × Deed α) = l.attend now := by
  obtain ⟨client, session, control, signals, due, resyncs, fetch, batches, outbox, finished⟩ := l
  subst running clear
  exact if_neg (Bool.not_eq_true _ |>.mpr opened)

/-- No event, no batch and no change of the filter is pending. -/
structure Quiet (l : Loop) : Prop where
  silent : l.reply = .pending
  empty : l.batches = []
  unchanged : l.control.changed = false

/-- What attending comes to, and when. -/
inductive Attends (l : Loop) (now : Millis) : Loop → Deed α → Prop where
  | ends (finished : l.reply = .finished) : Attends l now l.asking.finish .closed
  | hears (e : SessionEvent) (told : l.reply = .event e) :
    Attends l now { l.asking with client := l.client.onSession e now } (.heard e)
  | applies (silent : l.reply = .pending) (batch : List Event) (rest : List (List Event))
    (queue : l.batches = batch :: rest) :
    Attends l now { l.asking with client := (l.client.onBatch batch).1, batches := rest }
      (.applied batch)
  | filters (silent : l.reply = .pending) (empty : l.batches = [])
    (changed : l.control.changed = true) :
    Attends l now
      { l.asking with
        client := l.client.setFilter l.control.filter
        control := l.control.taken }
      (.filtered l.control.filter)
  | reports (quiet : l.Quiet) (due : l.due .report = true)
    (opened : l.asking.session.isOpen = true) :
    Attends l now
      { l.asking.heed .report with
        client := (l.client.report now l.asking.session.malformed).1
        outbox := (l.client.report now l.asking.session.malformed).2 }
      (.reported (l.client.report now l.asking.session.malformed).2)
  | skipsReport (quiet : l.Quiet) (due : l.due .report = true)
    (shut : l.asking.session.isOpen = false) :
    Attends l now (l.asking.heed .report) (.skipped .report)
  | polls (quiet : l.Quiet) (due : l.due .poll = true) :
    Attends l now { l.asking.heed .poll with client := l.client.poll now } .polled
  | draws (quiet : l.Quiet) (due : l.due .frame = true) :
    Attends l now
      { l.asking.heed .frame with client := (l.client.draw now : Client × Frame α).1 }
      (.drew (l.client.draw now).2 (l.client.draw now : Client × Frame α).1.view)
  | asks (quiet : l.Quiet) (due : l.due .resync = true) (enabled : l.resyncs = true)
    (free : l.fetch = none) :
    Attends l now
      { l.asking.heed .resync with fetch := some (.asked l.client.filter.window) }
      (.asked l.client.filter.window)
  | skipsResync (quiet : l.Quiet) (due : l.due .resync = true) (enabled : l.resyncs = true)
    (busy : l.fetch.isSome = true) :
    Attends l now (l.asking.heed .resync) (.skipped .resync)
  | rests (quiet : l.Quiet) : Attends l now l.asking .idle

theorem attends_clockTurn {l : Loop} (quiet : l.Quiet) (now : Millis) :
    Attends l now (l.asking.clockTurn now : Loop × Deed α).1
      (l.asking.clockTurn now : Loop × Deed α).2 := by
  unfold clockTurn
  split
  · next due =>
    dsimp only
    split
    · next opened => exact .reports quiet due opened
    · next shut => exact .skipsReport quiet due (Bool.not_eq_true _ |>.mp shut)
  · split
    · next due => exact .polls quiet due
    · split
      · next due => exact .draws quiet due
      · split
        · next due =>
          rw [Bool.and_eq_true] at due
          dsimp only
          split
          · next busy => exact .skipsResync quiet due.2 due.1 busy
          · next free =>
            exact .asks quiet due.2 due.1 (Option.not_isSome_iff_eq_none.mp free)
        · exact .rests quiet

theorem attends_attend (l : Loop) (now : Millis) :
    Attends l now (l.attend now : Loop × Deed α).1 (l.attend now : Loop × Deed α).2 := by
  unfold attend
  split
  · next finished => exact .ends finished
  · next e told => exact .hears e told
  · next silent =>
    unfold innerTurn
    split
    · next batch rest queue => exact .applies silent batch rest queue
    · next empty =>
      split
      · next changed => exact .filters silent empty changed
      · next unchanged =>
        exact attends_clockTurn ⟨silent, empty, Bool.not_eq_true _ |>.mp unchanged⟩ now

theorem Attends.quiet {l l' : Loop} {now : Millis} {deed : Deed α} (does : Attends l now l' deed)
    (timed : deed.isTimed = true) : l.Quiet := by
  cases does with
  | reports quiet | polls quiet | draws quiet | asks quiet => exact quiet
  | _ => cases timed

/-! ## Turns -/

/-- A turn, and whether it looks if the client is closed. A report that is
being sent looks before each message. -/
def turnAs (l : Loop) (hears : Bool) (now : Millis) : Loop × Deed α :=
  if hears || l.finished || !l.outbox.isEmpty then l.turn now else l.attend now

/-- What a turn comes to, and when. -/
inductive Turns (hears : Bool) (l : Loop) (now : Millis) : Loop → Deed α → Prop where
  /-- The loop is over. -/
  | stays (finished : l.finished = true) : Turns hears l now l .idle
  | sends (running : l.finished = false) (m : Outbound) (rest : List Outbound)
    (left : l.outbox = m :: rest) (opened : l.control.closed = false) :
    Turns hears l now { l with outbox := rest } (.sent (l.session.send m))
  | withholds (running : l.finished = false) (left : l.outbox ≠ [])
    (closed : l.control.closed = true) :
    Turns hears l now { l with outbox := [] } .withheld
  | closes (running : l.finished = false) (clear : l.outbox = []) (hear : hears = true)
    (closed : l.control.closed = true) :
    Turns hears l now l.finish .closed
  | attends (running : l.finished = false) (clear : l.outbox = [])
    (opened : hears = true → l.control.closed = false) {l' : Loop} {deed : Deed α}
    (does : Attends l now l' deed) :
    Turns hears l now l' deed

theorem turn_of_finished {l : Loop} (finished : l.finished = true) (now : Millis) :
    (l.turn now : Loop × Deed α) = (l, .idle) :=
  if_pos finished

/-- A report that is being sent goes before all else. -/
theorem turn_of_left {l : Loop} (running : l.finished = false) {m : Outbound}
    {rest : List Outbound} (left : l.outbox = m :: rest) (now : Millis) :
    (l.turn now : Loop × Deed α) =
      if l.control.closed then ({ l with outbox := [] }, .withheld)
      else ({ l with outbox := rest }, .sent (l.session.send m)) := by
  rw [turn, running, if_neg Bool.false_ne_true, left]

theorem turn_of_closed {l : Loop} (running : l.finished = false) (clear : l.outbox = [])
    (closed : l.control.closed = true) (now : Millis) :
    (l.turn now : Loop × Deed α) = (l.finish, .closed) := by
  rw [turn, running, if_neg Bool.false_ne_true, clear]
  exact if_pos closed

theorem turns_turnAs (hears : Bool) (l : Loop) (now : Millis) :
    Turns hears l now (l.turnAs hears now : Loop × Deed α).1
      (l.turnAs hears now : Loop × Deed α).2 := by
  cases finished : l.finished with
  | true =>
    rw [turnAs, finished, Bool.or_true, Bool.true_or, if_pos rfl, turn_of_finished finished]
    exact .stays finished
  | false =>
    cases left : l.outbox with
    | cons m rest =>
      have some_left : l.outbox ≠ [] := by
        rw [left]
        exact List.cons_ne_nil m rest
      rw [turnAs, left, List.isEmpty_cons, Bool.not_false, Bool.or_true, if_pos rfl,
        turn_of_left finished left]
      split
      · next closed => exact .withholds finished some_left closed
      · next opened => exact .sends finished m rest left (Bool.not_eq_true _ |>.mp opened)
    | nil =>
      -- only here does it matter whether the turn looks
      by_cases shut : hears = true ∧ l.control.closed = true
      · rw [turnAs, shut.1, Bool.true_or, Bool.true_or, if_pos rfl,
          turn_of_closed finished left shut.2]
        exact .closes finished left rfl shut.2
      · have opened (hear : hears = true) : l.control.closed = false :=
          Bool.not_eq_true _ |>.mp fun closed => shut ⟨hear, closed⟩
        have attends : (l.turnAs hears now : Loop × Deed α) = l.attend now := by
          cases hears with
          | true => exact turn_eq_attend finished left (opened rfl) now
          | false =>
            rw [turnAs, finished, left]
            rfl
        rw [attends]
        exact .attends finished left opened (attends_attend l now)

/-- A turn that acts for a clock has looked at everything else. -/
theorem Turns.attends_of_isTimed {l l' : Loop} {hears : Bool} {now : Millis} {deed : Deed α}
    (does : Turns hears l now l' deed) (timed : deed.isTimed = true) :
    l.finished = false ∧ (hears = true → l.control.closed = false) ∧ Attends l now l' deed := by
  cases does with
  | attends running _ opened does => exact ⟨running, opened, does⟩
  | _ => cases timed

end Loop

/-! ## Runs -/

/-- What may come next in a run. A turn that begins hears of the close; one
that has been waiting may not. -/
inductive Move where
  | happens (h : Happening)
  | turns (hears : Bool) (now : Millis)

/-- A run so far. -/
structure Course where
  loop : Loop
  /-- If the turn under way found nothing and waits, the loop in which it began. -/
  waiting : Option Loop

namespace Course

/-- A run of a loop in which no turn is under way. -/
def of (l : Loop) : Course := ⟨l, none⟩

/-- The loop in which the next turn begins, or in which it has begun. -/
def began (c : Course) : Loop := c.waiting.getD c.loop

/-- A turn, or what becomes of the one that waits. -/
def turn (c : Course) (hears : Bool) (now : Millis) : Loop × Deed Float :=
  c.loop.turnAs (hears || c.waiting.isNone) now

/-- What a move does, and the deed if it is a turn. -/
def move (c : Course) : Move → Course × Option (Deed Float)
  | .happens h => (⟨c.loop.happen h, c.waiting⟩, none)
  | .turns hears now =>
    let (l, deed) := c.turn hears now
    (⟨l, if deed.isIdle then some c.began else none⟩, some deed)

/-- The run after moves. -/
def after (c : Course) (moves : List Move) : Course := moves.foldl (fun c m => (c.move m).1) c

/-- The deeds of the turns among moves. -/
def deeds (c : Course) : List Move → List (Deed Float)
  | [] => []
  | m :: rest => (c.move m).2.toList ++ (c.move m).1.deeds rest

theorem after_append (c : Course) (moves more : List Move) :
    c.after (moves ++ more) = (c.after moves).after more :=
  List.foldl_append

theorem after_happens (c : Course) (moves : List Move) (h : Happening) :
    c.after (moves ++ [.happens h]) = ⟨(c.after moves).loop.happen h, (c.after moves).waiting⟩ :=
  c.after_append moves [.happens h]

theorem loop_after_turns (c : Course) (moves : List Move) (hears : Bool) (now : Millis) :
    (c.after (moves ++ [.turns hears now])).loop = ((c.after moves).turn hears now).1 := by
  rw [after_append]
  rfl

end Course

end AttackMap
