import AttackMap.Proofs.Session.Moves
import Mathlib.Data.List.Chain

/-!
# What a session tells and when it is over

The events of a session come in an order that a connection can have
(`Orderly`). Nothing of it is stored: it follows, move by move, from the
state of the machine and from what a move can do (`Telling.passes`). Once
closed, a session is over for good (`Over`), and `upkeep` is the whole.
-/

namespace AttackMap.Session

/-! ## What the events tell -/

/-- Which status comes after which. -/
inductive Follows : TransportStatus → TransportStatus → Prop
  | opens : Follows .connecting .opened
  | fails : Follows .connecting .closed
  | lost : Follows .opened .closed
  | redials : Follows .closed .connecting

/-- The statuses among events. -/
def statuses (events : List SessionEvent) : List TransportStatus :=
  events.filterMap fun
    | .status st => some st
    | .message _ => none

/-- Events in an order that a connection can have. -/
structure Orderly (events : List SessionEvent) : Prop where
  head : ∀ st ∈ (statuses events).head?, st = .connecting
  steps : (statuses events).IsChain Follows
  /-- A message comes when the latest status is that of an open connection. -/
  messages : ∀ before m rest, events = before ++ .message m :: rest →
    (statuses before).getLast? = some .opened

/-- Begun and not closed. -/
def Running (s : Session) : Prop := s.machine.state ≠ .idle ∧ s.machine.state ≠ .closed

/-- The events of a session so far: in order, none before it began, and
while it runs the latest status told is the one it has. -/
structure Telling (events : List SessionEvent) (s : Session) : Prop extends Orderly events where
  silent : s.machine.state = .idle → statuses events = []
  latest : s.Running → (statuses events).getLast? = some s.status

theorem statuses_append (events more : List SessionEvent) :
    statuses (events ++ more) = statuses events ++ statuses more :=
  List.filterMap_append

/-- One more message on an open connection. -/
theorem Orderly.message {events : List SessionEvent} (h : Orderly events)
    (opened : (statuses events).getLast? = some .opened) (m : Inbound) :
    Orderly (events ++ [.message m]) := by
  have same : statuses (events ++ [.message m]) = statuses events := by
    rw [statuses_append]
    exact List.append_nil _
  refine ⟨by rw [same]; exact h.head, by rw [same]; exact h.steps, ?_⟩
  intro before m' rest split
  rcases List.eq_nil_or_concat rest with rfl | ⟨rest, last, rfl⟩
  · rwa [← (List.append_inj' split rfl).1]
  · rw [List.concat_eq_append, ← List.cons_append, ← List.append_assoc] at split
    exact h.messages before m' rest (List.append_inj' split rfl).1

/-- One more status: the first, or one that may come after the latest. -/
theorem Orderly.status {events : List SessionEvent} (h : Orderly events) {st : TransportStatus}
    (first : statuses events = [] → st = .connecting)
    (next : ∀ last ∈ (statuses events).getLast?, Follows last st) :
    Orderly (events ++ [.status st]) := by
  have more : statuses (events ++ [.status st]) = statuses events ++ [st] := statuses_append _ _
  refine ⟨?_, ?_, ?_⟩
  · rw [more]
    cases hs : statuses events with
    | nil => exact fun st' h' => (Option.some.inj h').symm.trans (first hs)
    | cons st' rest =>
      have head := h.head
      rw [hs] at head
      exact head
  · rw [more]
    refine h.steps.append (List.isChain_singleton st) fun last hl st' hst => ?_
    obtain rfl : st = st' := Option.some.inj hst
    exact next last hl
  · intro before m rest split
    rcases List.eq_nil_or_concat rest with rfl | ⟨rest, last, rfl⟩
    · cases List.append_inj_right' split rfl
    · rw [List.concat_eq_append, ← List.cons_append, ← List.append_assoc] at split
      exact h.messages before m rest (List.append_inj' split rfl).1

/-- A status told is the one that the session then has. -/
theorem Passes.status {s s' : Session} {st : TransportStatus}
    (p : Passes s s' (some (.status st))) : s'.status = st ∧ s'.machine.state ≠ .idle := by
  rw [Session.status, Reconnect.status]
  cases p with
  | begins _ dials => rw [dials]; exact ⟨rfl, nofun⟩
  | opens _ opened => rw [opened]; exact ⟨rfl, nofun⟩
  | fails _ waits => rw [waits]; exact ⟨rfl, nofun⟩
  | redials _ dials => rw [dials]; exact ⟨rfl, nofun⟩

/-- A status told is the first, or may come after the one before. -/
theorem Passes.follows {s s' : Session} {st : TransportStatus}
    (p : Passes s s' (some (.status st))) :
    (s.machine.state = .idle ∧ st = .connecting) ∨ (s.Running ∧ Follows s.status st) := by
  rw [Running, Session.status, Reconnect.status]
  cases p with
  | begins idle _ => exact .inl ⟨idle, rfl⟩
  | opens dials _ => rw [dials]; exact .inr ⟨⟨nofun, nofun⟩, .opens⟩
  | fails was _ =>
    rcases was with dials | opened
    · rw [dials]; exact .inr ⟨⟨nofun, nofun⟩, .fails⟩
    · rw [opened]; exact .inr ⟨⟨nofun, nofun⟩, .lost⟩
  | redials waits _ => rw [waits]; exact .inr ⟨⟨nofun, nofun⟩, .redials⟩

/-- What a move makes of a session is told by its event. -/
theorem Telling.passes {events : List SessionEvent} {s s' : Session} {e : Option SessionEvent}
    (h : Telling events s) (p : Passes s s' e) : Telling (events ++ e.toList) s' := by
  match e, p with
  | none, .rests same =>
    rw [Option.toList_none, List.append_nil]
    refine ⟨h.toOrderly, ?_, ?_⟩
    · rw [same]
      exact h.silent
    · rw [Running, Session.status, same]
      exact h.latest
  | some (.message m), .brings _ opened same =>
    have latest : (statuses events).getLast? = some .opened := by
      rw [h.latest (by rw [Running, opened]; exact ⟨nofun, nofun⟩), Session.status,
        Reconnect.status, opened]
    refine ⟨h.toOrderly.message latest m, ?_, ?_⟩
    · rw [same, opened]
      exact nofun
    · rw [Running, Session.status, same, Option.toList_some, statuses_append]
      exact (List.append_nil (statuses events)).symm ▸ h.latest
  | some (.status st), p =>
    obtain ⟨now, begun⟩ := p.status
    refine ⟨h.toOrderly.status ?_ ?_, fun idle => absurd idle begun, fun _ => ?_⟩
    · intro silent
      rcases p.follows with ⟨-, first⟩ | ⟨running, -⟩
      · exact first
      · have latest := h.latest running
        rw [silent] at latest
        cases latest
    · intro last told
      rcases p.follows with ⟨idle, -⟩ | ⟨running, follows⟩
      · rw [h.silent idle] at told
        cases told
      · rw [h.latest running] at told
        exact Option.some.inj told ▸ follows
    · rw [Option.toList_some, statuses_append, now]
      exact List.getLast?_concat

/-- Closing tells nothing. -/
theorem Telling.close {events : List SessionEvent} {s : Session} (h : Telling events s) :
    Telling events s.close := by
  refine ⟨h.toOrderly, ?_, fun running => absurd (state_close s) running.2⟩
  rw [state_close]
  exact nofun

/-- The events of any moves tell what became of the session. -/
theorem Conversation.telling_after (moves : List Move) :
    Telling (start.events moves) (start.after moves).session := by
  induction moves using List.reverseRecOn with
  | nil => exact ⟨⟨nofun, .nil, fun _ _ _ split => nomatch List.append_eq_nil_iff.mp split.symm⟩,
      fun _ => rfl, fun running => absurd rfl running.1⟩
  | append_singleton moves m ih =>
    rw [events_append, after_append, events, events, List.append_nil]
    by_cases closes : m = .close
    · subst closes
      exact (List.append_nil (start.events moves)).symm ▸ ih.close
    · exact ih.passes (move_passes (sound_after moves) m closes).2

/-! ## Closed for good -/

/-- A closed session leaves its owner nothing to get and nothing runs on. -/
structure Over (s : Session) : Prop where
  finished : ∀ signals, s.next signals = (s, .finished, signals)
  mute : ∀ m, s.send m = none
  noAttempt : s.dialing = false
  noDelay : s.retry = none

theorem ask_closed {s : Session} (closed : s.machine.state = .closed) :
    s.ask = (s, .finished) := by
  rw [Session.ask, closed]

theorem hear_closed {s : Session} (closed : s.machine.state = .closed) (signal : Signal) :
    s.hear signal = (s, none) := by
  simp only [Session.hear, closed]

/-- A sound session whose machine is closed is over. -/
theorem Sound.over {s : Session} (h : Sound s) (closed : s.machine.state = .closed) : Over s where
  finished := fun signals => by rw [next, ask_closed closed]
  mute := fun m => by
    have released : s.socket = false := by rw [h.socket, isOpen, closed]; rfl
    rw [send, released]
    rfl
  noAttempt := h.quiet fun dials => by
    rw [closed] at dials
    cases dials
  noDelay := by rw [h.retry, closed]; rfl

namespace Conversation

/-- No move opens a closed session again. -/
theorem move_closed {c : Conversation} (closed : c.session.machine.state = .closed) (m : Move) :
    (c.move m).1.session.machine.state = .closed := by
  cases m with
  | ask =>
    rw [move, ask_closed closed]
    exact closed
  | tell signal =>
    rw [move, hear_closed closed]
    cases c.waiting with
    | false => exact closed
    | true => exact closed
  | giveUp => exact closed
  | send m => exact closed
  | close => exact state_close c.session

/-- Closed by one of the moves, a session is closed after all of them. -/
theorem closed_after {moves : List Move} (closes : Move.close ∈ moves) :
    (start.after moves).session.machine.state = .closed := by
  induction moves using List.reverseRecOn with
  | nil => cases closes
  | append_singleton moves m ih =>
    rw [after_append]
    rcases List.mem_append.mp closes with before | last
    · exact move_closed (ih before) m
    · obtain rfl := List.mem_singleton.mp last
      exact state_close _

end Conversation

/-! ## All of it -/

/-- **The upkeep of a session**, however it is used and wherever its use is
interrupted. Its parts agree; a status that it tells is the one that it then
has; what it tells comes in order; closed once, it is over. A request for
the next event comes to the same as some moves, so all this holds of it,
and at every point where it waits. -/
theorem upkeep (moves : List Move) :
    let c := Conversation.start.after moves
    Sound c.session ∧
      (∀ m st, c.event? m = some (.status st) → (c.move m).1.session.status = st) ∧
      Orderly (Conversation.start.events moves) ∧
      (.close ∈ moves → Over c.session) ∧
      ∀ signals, ∃ heard rest reply, signals = heard ++ rest ∧
        c.session.next signals = ((c.after (.ask :: heard.map .tell)).session, reply, rest) ∧
        c.events (.ask :: heard.map .tell) = reply.event?.toList := by
  intro c
  have sound : Sound c.session := Conversation.sound_after moves
  refine ⟨sound, ?_, (Conversation.telling_after moves).toOrderly, ?_, c.request_moves⟩
  · intro m st told
    by_cases closes : m = .close
    · subst closes
      cases told
    · have passes := (Conversation.move_passes sound m closes).2
      rw [told] at passes
      exact passes.status.1
  · exact fun closes => sound.over (Conversation.closed_after closes)

end AttackMap.Session
