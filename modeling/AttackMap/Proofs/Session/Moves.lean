import AttackMap.Session
import Mathlib.Data.List.Induction

/-!
# A session in use

A session is asked for events, told what its surroundings do, sends and is
at last closed, in any order, and a request may be given up wherever it
waits (`Move`). The moves are finer than the requests: each ends where the
session waits or answers, so what holds after any moves holds at every
point where anyone could look (`request_moves` takes a request apart into
its moves).

Four things are kept in step (`Sound`): the state of the machine, the
attempt to connect, the socket and the delay. What a move can do to a sound
session is said once, in `Passes`.
-/

namespace AttackMap.Session

/-! ## Moves -/

/-- What the owner of a session and its surroundings do. -/
inductive Move where
  /-- The owner asks for the next event; a request that waits is given up for it. -/
  | ask
  /-- The request that waits is told something. -/
  | tell (signal : Signal)
  /-- The owner gives up the request that waits. -/
  | giveUp
  | send (m : Outbound)
  | close

/-- A session and whether a request waits. -/
structure Conversation where
  session : Session
  waiting : Bool

/-- The event of a reply. -/
def Reply.event? : Reply → Option SessionEvent
  | .event e => some e
  | _ => none

namespace Conversation

/-- Nobody has asked for anything. -/
def start : Conversation := ⟨.start, false⟩

/-- What a move does, and the reply it brings, if one. -/
def move (c : Conversation) : Move → Conversation × Option Reply
  | .ask =>
    let (s, reply) := c.session.ask
    (⟨s, reply = .pending⟩, some reply)
  | .tell signal =>
    if c.waiting then
      match c.session.hear signal with
      | (s, some e) => (⟨s, false⟩, some (.event e))
      | (s, none) => (⟨s, true⟩, some .pending)
    else (c, none)
  | .giveUp => (⟨c.session, false⟩, none)
  | .send _ => (⟨c.session, false⟩, none)
  | .close => (⟨c.session.close, false⟩, none)

/-- The event that a move brings. -/
def event? (c : Conversation) (m : Move) : Option SessionEvent := (c.move m).2.bind Reply.event?

/-- The conversation after moves. -/
def after (c : Conversation) (moves : List Move) : Conversation :=
  moves.foldl (fun c m => (c.move m).1) c

/-- The events that moves bring. -/
def events (c : Conversation) : List Move → List SessionEvent
  | [] => []
  | m :: rest => (c.event? m).toList ++ (c.move m).1.events rest

theorem after_cons (c : Conversation) (m : Move) (moves : List Move) :
    c.after (m :: moves) = (c.move m).1.after moves :=
  rfl

theorem after_append (c : Conversation) (moves more : List Move) :
    c.after (moves ++ more) = (c.after moves).after more :=
  List.foldl_append

theorem events_append (c : Conversation) (moves more : List Move) :
    c.events (moves ++ more) = c.events moves ++ (c.after moves).events more := by
  induction moves generalizing c with
  | nil => rfl
  | cons m rest ih => rw [List.cons_append, events, events, ih, List.append_assoc]; rfl

/-! ## Requests -/

/-- A request that waits takes signals one move at a time. -/
theorem listen_moves (s : Session) (signals : List Signal) :
    ∃ heard rest reply, signals = heard ++ rest ∧
      s.listen signals = ((after ⟨s, true⟩ (heard.map .tell)).session, reply, rest) ∧
      events ⟨s, true⟩ (heard.map .tell) = reply.event?.toList := by
  induction signals generalizing s with
  | nil => exact ⟨[], [], .pending, rfl, rfl, rfl⟩
  | cons signal signals ih =>
    cases hears : s.hear signal with
    | mk s' e =>
      cases e with
      | some e =>
        have tells : move ⟨s, true⟩ (.tell signal) = (⟨s', false⟩, some (.event e)) := by
          rw [move, if_pos rfl, hears]
        refine ⟨[signal], signals, .event e, rfl, ?_, ?_⟩
        · rw [listen, hears, List.map_singleton, after_cons, tells]
          rfl
        · rw [List.map_singleton, events, event?, tells]
          rfl
      | none =>
        have tells : move ⟨s, true⟩ (.tell signal) = (⟨s', true⟩, some .pending) := by
          rw [move, if_pos rfl, hears]
        obtain ⟨heard, rest, reply, split, same, told⟩ := ih s'
        refine ⟨signal :: heard, rest, reply, congrArg (signal :: ·) split, ?_, ?_⟩
        · rw [listen, hears, List.map_cons, after_cons, tells]
          exact same
        · rw [List.map_cons, events, event?, tells]
          exact told

/-- A request is a move that asks and one for each signal that it takes. -/
theorem request_moves (c : Conversation) (signals : List Signal) :
    ∃ heard rest reply, signals = heard ++ rest ∧
      c.session.next signals = ((c.after (.ask :: heard.map .tell)).session, reply, rest) ∧
      c.events (.ask :: heard.map .tell) = reply.event?.toList := by
  have asks : c.move .ask =
      (⟨c.session.ask.1, c.session.ask.2 = .pending⟩, some c.session.ask.2) := rfl
  cases asked : c.session.ask with
  | mk s reply =>
    rw [asked] at asks
    cases reply with
    | pending =>
      obtain ⟨heard, rest, reply, split, same, told⟩ := listen_moves s signals
      refine ⟨heard, rest, reply, split, ?_, ?_⟩
      · rw [next, asked, after_cons, asks]
        exact same
      · rw [events, event?, asks]
        exact told
    | finished =>
      refine ⟨[], signals, .finished, rfl, ?_, ?_⟩
      · rw [next, asked, List.map_nil, after_cons, asks]
        rfl
      · rw [List.map_nil, events, event?, asks]
        rfl
    | event e =>
      refine ⟨[], signals, .event e, rfl, ?_, ?_⟩
      · rw [next, asked, List.map_nil, after_cons, asks]
        rfl
      · rw [List.map_nil, events, event?, asks]
        rfl

end Conversation

/-! ## The parts agree -/

/-- The delay of a state that waits. -/
def delay? : Reconnect.State → Option Span
  | .waiting delay => some delay
  | _ => none

/-- The parts of a session agree with its machine. -/
structure Sound (s : Session) : Prop where
  /-- A socket is held when the machine is open, and only then. -/
  socket : s.socket = s.isOpen
  /-- A delay runs when the machine waits, and only then, and it is that of
  the machine. -/
  retry : s.retry = delay? s.machine.state
  /-- An attempt is under way only when the machine is connecting. -/
  dialing : s.dialing = true → s.machine.state = .connecting

/-- What becomes of a session, with the event it gives if it gives one. -/
inductive Passes (s s' : Session) : Option SessionEvent → Prop
  /-- The machine rests. -/
  | rests (same : s'.machine = s.machine) : Passes s s' none
  /-- A message comes on an open connection. -/
  | brings (m : Inbound) (opened : s.machine.state = .opened) (same : s'.machine = s.machine) :
    Passes s s' (some (.message m))
  /-- The first attempt begins. -/
  | begins (idle : s.machine.state = .idle) (dials : s'.machine.state = .connecting) :
    Passes s s' (some (.status .connecting))
  /-- An attempt succeeds. -/
  | opens (dials : s.machine.state = .connecting) (opened : s'.machine.state = .opened) :
    Passes s s' (some (.status .opened))
  /-- An attempt fails or a connection is lost. -/
  | fails (was : s.machine.state = .connecting ∨ s.machine.state = .opened) {delay : Span}
    (waits : s'.machine.state = .waiting delay) : Passes s s' (some (.status .closed))
  /-- The delay is over. -/
  | redials {delay : Span} (waits : s.machine.state = .waiting delay)
    (dials : s'.machine.state = .connecting) : Passes s s' (some (.status .connecting))

/-- A new session is sound. -/
theorem Sound.start : Sound start := ⟨rfl, rfl, fun busy => nomatch busy⟩

theorem state_close (s : Session) : s.close.machine.state = .closed := by
  obtain ⟨⟨state, failures⟩, dialing, socket, retry, malformed⟩ := s
  cases state <;> rfl

/-- Closed for good, a session holds nothing. -/
theorem Sound.close (s : Session) : Sound s.close where
  socket := by rw [isOpen, state_close]; rfl
  retry := by rw [state_close]; rfl
  dialing := fun busy => nomatch busy

/-- A session that is not connecting has no attempt under way. -/
theorem Sound.quiet {s : Session} (h : Sound s) (other : s.machine.state ≠ .connecting) :
    s.dialing = false := by
  cases hd : s.dialing with
  | false => rfl
  | true => exact absurd (h.dialing hd) other

/-- A failure leaves a delay and nothing else. -/
theorem Sound.fail {s : Session} (was : s.machine.state = .connecting ∨ s.machine.state = .opened)
    (quiet : s.dialing = false) : Sound s.fail ∧ Passes s s.fail (some (.status .closed)) := by
  have waits : s.fail.machine.state = .waiting (Reconnect.delay s.machine.failures) := by
    rcases was with hs | hs <;> simp only [Session.fail, Reconnect.step, hs]
  have runs : s.fail.retry = some (Reconnect.delay s.machine.failures) := by
    rcases was with hs | hs <;> simp only [Session.fail, Reconnect.step, hs]
  refine ⟨⟨?_, ?_, fun busy => ?_⟩, .fails was waits⟩
  · rw [isOpen, waits]
    rfl
  · rw [runs, waits, delay?]
  · rw [show s.fail.dialing = s.dialing from rfl, quiet] at busy
    cases busy

/-- Beginning the next attempt. -/
theorem Sound.redial {s : Session} (h : Sound s) {delay : Span}
    (waits : s.machine.state = .waiting delay) :
    Sound s.redial ∧ Passes s s.redial (some (.status .connecting)) := by
  have dials : s.redial.machine.state = .connecting := by
    simp only [Session.redial, Reconnect.step, waits]
  refine ⟨⟨?_, ?_, fun _ => dials⟩, .redials waits dials⟩
  · rw [show s.redial.socket = s.socket from rfl, h.socket, isOpen, isOpen, waits, dials]
    rfl
  · rw [dials]
    rfl

/-! ## What a request does -/

/-- Asking leaves a session sound. -/
theorem Sound.ask {s : Session} (h : Sound s) :
    Sound s.ask.1 ∧ Passes s s.ask.1 s.ask.2.event? := by
  unfold Session.ask
  cases hs : s.machine.state with
  | closed => exact ⟨h, .rests rfl⟩
  | idle =>
    have dials : (s.machine.step .start).state = .connecting := by
      simp only [Reconnect.step, hs]
    refine ⟨⟨?_, ?_, fun _ => dials⟩, .begins hs dials⟩
    · exact h.socket.trans (by rw [isOpen, isOpen, hs, dials]; rfl)
    · exact h.retry.trans (by rw [hs, dials]; rfl)
  | waiting delay =>
    have runs : s.retry = some delay := by rw [h.retry, hs, delay?]
    simp only [runs, Option.isSome_some, if_true]
    exact ⟨h, .rests rfl⟩
  | connecting => exact ⟨⟨h.socket, h.retry, fun _ => hs⟩, .rests rfl⟩
  | opened =>
    have held : s.socket = true := by rw [h.socket, isOpen, hs]; rfl
    simp only [held, if_true]
    exact ⟨h, .rests rfl⟩

/-- An attempt that ends leaves a session sound. -/
theorem Sound.dialed {s : Session} (h : Sound s) (dials : s.machine.state = .connecting)
    (outcome : DialOutcome) :
    Sound (s.dialed outcome).1 ∧ Passes s (s.dialed outcome).1 (s.dialed outcome).2 := by
  have lost : Sound { s with dialing := false }.fail ∧
      Passes s { s with dialing := false }.fail (some (.status .closed)) := by
    obtain ⟨sound, passes⟩ := Sound.fail (s := { s with dialing := false }) (.inl dials) rfl
    cases passes with
    | fails was waits => exact ⟨sound, .fails was waits⟩
  cases outcome with
  | connected =>
    have opened : (s.machine.step .opened).state = .opened := by
      simp only [Reconnect.step, dials]
    refine ⟨⟨?_, ?_, fun busy => nomatch busy⟩, .opens dials opened⟩
    · rw [isOpen, show (s.dialed .connected).1.machine = s.machine.step .opened from rfl, opened]
      rfl
    · rw [show (s.dialed .connected).1.machine = s.machine.step .opened from rfl, opened]
      exact h.retry.trans (by rw [dials]; rfl)
  | failed => exact lost
  | timedOut => exact lost

/-- A text leaves everything but the count of malformed frames as it is. -/
theorem Sound.receive {s : Session} (h : Sound s) (opened : s.machine.state = .opened)
    (text : String) :
    Sound (s.receive text).1 ∧ Passes s (s.receive text).1 (s.receive text).2 := by
  unfold Session.receive
  cases Inbound.decode text with
  | ok m => exact ⟨h, .brings m opened rfl⟩
  | error r => exact ⟨⟨h.socket, h.retry, h.dialing⟩, .rests rfl⟩

/-- A frame leaves an open session sound. -/
theorem Sound.read {s : Session} (h : Sound s) (opened : s.machine.state = .opened)
    (frame : Incoming) :
    Sound (s.read frame).1 ∧ Passes s (s.read frame).1 (s.read frame).2 := by
  have lost := Sound.fail (.inr opened) (h.quiet (by rw [opened]; exact nofun))
  cases frame with
  | text t => exact h.receive opened t
  | binary bytes =>
    rw [Session.read]
    cases String.fromUTF8? bytes with
    | some t => exact h.receive opened t
    | none => exact ⟨⟨h.socket, h.retry, h.dialing⟩, .rests rfl⟩
  | control => exact ⟨h, .rests rfl⟩
  | close => exact lost
  | ended => exact lost
  | readError => exact lost

/-- Any signal leaves a session sound, also one that it does not wait for. -/
theorem Sound.hear {s : Session} (h : Sound s) (signal : Signal) :
    Sound (s.hear signal).1 ∧ Passes s (s.hear signal).1 (s.hear signal).2 := by
  unfold Session.hear
  split
  · next outcome hs => exact h.dialed hs outcome
  · next delay hs => exact h.redial hs
  · next frame hs => exact h.read hs frame
  · exact ⟨h, .rests rfl⟩


namespace Conversation

/-- Closing apart, a move leaves a session sound. -/
theorem move_passes {c : Conversation} (h : Sound c.session) (m : Move) (other : m ≠ .close) :
    Sound (c.move m).1.session ∧ Passes c.session (c.move m).1.session (c.event? m) := by
  cases m with
  | ask => exact h.ask
  | tell signal =>
    rw [event?, move]
    cases c.waiting with
    | false => exact ⟨h, .rests rfl⟩
    | true =>
      have heard := h.hear signal
      rw [if_pos rfl]
      cases told : c.session.hear signal with
      | mk s e =>
        rw [told] at heard
        cases e with
        | none => exact heard
        | some e => exact heard
  | giveUp => exact ⟨h, .rests rfl⟩
  | send m => exact ⟨h, .rests rfl⟩
  | close => exact absurd rfl other

/-- After any moves a session is sound. -/
theorem sound_after (moves : List Move) : Sound (start.after moves).session := by
  induction moves using List.reverseRecOn with
  | nil => exact Sound.start
  | append_singleton moves m ih =>
    rw [after_append]
    by_cases closes : m = .close
    · subst closes
      exact Sound.close _
    · exact (move_passes ih m closes).1

end Conversation

end AttackMap.Session
