import AttackMap.Proofs.Loop.Operations

/-!
# The verdict and the connection

What is shown of the connection is kept by one machine and the connection by
another, and only what the session tells keeps them together. A request for
the next event may be given up whenever something else is pending, so the
session must not move unless it tells that it did: a request that waits
leaves its machine as it was, whatever it has consumed, and one that is
answered with a status has made the one step to that status
(`Session.Answers`).

So the status of the evaluator is that of the session after every move
(`Attuned`), every transition is told once and none twice, and reports go
out only on a transport that is open.
-/

namespace AttackMap

/-! ## Requests and the machine -/

namespace Session

/-- What a request for the next event does to the machine, by its reply. -/
inductive Answers (s s' : Session) : Reply → Prop
  | ends (same : s'.machine = s.machine) (closed : s.machine.state = .closed) :
    Answers s s' .finished
  /-- The request waits, and may be given up. -/
  | waits (same : s'.machine = s.machine) : Answers s s' .pending
  /-- A text has come and is the message told. -/
  | brings (m : Inbound) (text : String) (decodes : Inbound.decode text = .ok m)
    (same : s'.machine = s.machine) : Answers s s' (.event (.message m))
  /-- The machine makes a step, and the status told is the one it comes to. -/
  | tells {status : TransportStatus} (input : Reconnect.Input)
    (steps : s'.machine = s.machine.step input) (moves : s'.machine.state ≠ s.machine.state)
    (running : s'.machine.state ≠ .closed) (now : s'.status = status) :
    Answers s s' (.event (.status status))

variable {s s' s'' : Session}

/-- Only the machine from which a request began is of account. -/
theorem Answers.of_machine_eq {r : Reply} (h : Answers s' s'' r)
    (same : s'.machine = s.machine) : Answers s s'' r := by
  cases h with
  | ends rests closed => exact .ends (rests.trans same) (same ▸ closed)
  | waits rests => exact .waits (rests.trans same)
  | brings m text decodes rests => exact .brings m text decodes (rests.trans same)
  | tells input steps moves running now =>
    rw [same] at steps moves
    exact .tells input steps moves running now

/-- One step by which the machine gets to another state. -/
theorem Answers.step {status : TransportStatus} {input : Reconnect.Input}
    {before after : Reconnect.State} (steps : s'.machine = s.machine.step input)
    (was : s.machine.state = before) (is : (s.machine.step input).state = after)
    (moves : after ≠ before) (running : after ≠ .closed)
    (now : (Reconnect.mk after 0).status = status) :
    Answers s s' (.event (.status status)) := by
  rw [← steps] at is
  refine .tells input steps ?_ ?_ ?_
  · rw [is, was]
    exact moves
  · rw [is]
    exact running
  · rw [Session.status, Reconnect.status, is]
    exact now

theorem Answers.fail (was : s.machine.state = .connecting ∨ s.machine.state = .opened) :
    Answers s s.fail (.event (.status .closed)) := by
  rcases was with dials | opened
  · have waits : (s.machine.step .failed).state =
        .waiting (Reconnect.delay s.machine.failures) := by
      simp only [Reconnect.step, dials]
    exact .step rfl dials waits (by rintro ⟨⟩) (by rintro ⟨⟩) rfl
  · have waits : (s.machine.step .failed).state =
        .waiting (Reconnect.delay s.machine.failures) := by
      simp only [Reconnect.step, opened]
    exact .step rfl opened waits (by rintro ⟨⟩) (by rintro ⟨⟩) rfl

theorem Answers.redial {delay : Span} (was : s.machine.state = .waiting delay) :
    Answers s s.redial (.event (.status .connecting)) := by
  have dials : (s.machine.step .elapsed).state = .connecting := by
    simp only [Reconnect.step, was]
  exact .step rfl was dials (by rintro ⟨⟩) (by rintro ⟨⟩) rfl

theorem Answers.ask (s : Session) : Answers s s.ask.1 s.ask.2 := by
  unfold Session.ask
  split
  · next closed => exact .ends rfl closed
  · next idle =>
    have dials : (s.machine.step .start).state = .connecting := by
      simp only [Reconnect.step, idle]
    exact .step rfl idle dials (by rintro ⟨⟩) (by rintro ⟨⟩) rfl
  · next delay was =>
    split
    · exact .waits rfl
    · exact .redial was
  · exact .waits rfl
  · next opened =>
    split
    · exact .waits rfl
    · exact .fail (.inr opened)

/-- The reply to which a signal brings a request that waits. -/
def replyOf : Option SessionEvent → Reply
  | some e => .event e
  | none => .pending

theorem Answers.receive (s : Session) (text : String) :
    Answers s (s.receive text).1 (replyOf (s.receive text).2) := by
  unfold Session.receive
  split
  · next m decodes => exact .brings m text decodes rfl
  · exact .waits rfl

theorem Answers.hear (s : Session) (signal : Signal) :
    Answers s (s.hear signal).1 (replyOf (s.hear signal).2) := by
  unfold Session.hear
  split
  · next outcome dials =>
    cases outcome with
    | connected =>
      have opened : (s.machine.step .opened).state = .opened := by
        simp only [Reconnect.step, dials]
      exact .step rfl dials opened (by rintro ⟨⟩) (by rintro ⟨⟩) rfl
    | failed | timedOut =>
      have lost : Answers { s with dialing := false } _ _ := .fail (.inl dials)
      exact lost.of_machine_eq rfl
  · next delay was => exact .redial was
  · next frame opened =>
    cases frame with
    | text t => exact .receive s t
    | binary bytes =>
      rw [Session.read]
      split
      · exact .receive s _
      · exact .waits rfl
    | control => exact .waits rfl
    | close | ended | readError => exact .fail (.inr opened)
  · exact .waits rfl

/-- A request that waits for signals: each leaves the machine alone until one
brings an answer. -/
theorem Answers.listen (s : Session) (signals : List Signal) :
    Answers s (s.listen signals).1 (s.listen signals).2.1 := by
  induction signals generalizing s with
  | nil => exact .waits rfl
  | cons signal rest ih =>
    have heard := Answers.hear s signal
    rw [Session.listen]
    split
    · next s' e told =>
      rw [told] at heard
      exact heard
    · next s' told =>
      rw [told] at heard
      cases heard with
      | waits same => exact (ih s').of_machine_eq same

/-- **A session moves when it tells.** Whatever the session and the signals,
a request leaves the machine as it is unless a status is told, and then the
machine has made one step, to that status. -/
theorem Answers.next (s : Session) (signals : List Signal) :
    Answers s (s.next signals).1 (s.next signals).2.1 := by
  have asked := Answers.ask s
  rw [Session.next]
  split
  · next s' told =>
    rw [told] at asked
    cases asked with
    | waits same => exact (Answers.listen s' signals).of_machine_eq same
  · next s' reply _ told =>
    rw [told] at asked
    exact asked

end Session

/-! ## What the evaluator is told -/

namespace Liveness

/-- The status in a notice. -/
def Notice.status? : Notice → Option TransportStatus
  | .transport status => some status
  | _ => none

/-- Only a status changes the transport. -/
theorem transport_hear (l : Liveness) (n : Notice) :
    (l.hear n).1.transport = n.status?.getD l.transport := by
  have looks (l : Liveness) (now : Millis) : (l.look now).1.transport = l.transport := by
    unfold look
    split
    · rw [refresh_fst]
    · rfl
  cases n with
  | transport status => rw [hear, refresh_fst, Notice.status?, Option.getD_some]
  | heartbeat now =>
    rw [hear]
    split
    · exact looks _ now
    · rfl
  | poll now => exact looks l now

/-- The transport has the last status told. -/
theorem transport_after (l : Liveness) (notices : List Notice) :
    (l.after notices).transport = (notices.filterMap Notice.status?).getLastD l.transport := by
  induction notices generalizing l with
  | nil => rfl
  | cons n rest ih =>
    refine (ih (l.hear n).1).trans ?_
    rw [transport_hear]
    cases told : n.status? with
    | none => rw [List.filterMap_cons_none told, Option.getD_none]
    | some status => rw [List.filterMap_cons_some told, Option.getD_some, List.getLastD_cons]

end Liveness

/-- The statuses that operations tell the evaluator. -/
def Client.Operation.statuses (ops : List Operation) : List TransportStatus :=
  (ops.flatMap notices).filterMap Liveness.Notice.status?

open Client.Operation (statuses)

theorem Client.Operation.statuses_append (ops more : List Client.Operation) :
    statuses (ops ++ more) = statuses ops ++ statuses more := by
  rw [statuses, List.flatMap_append, List.filterMap_append]
  rfl

/-! ## Turns -/

namespace Loop

/-- What a turn does to the machine, and of what statuses it tells the
evaluator. -/
inductive Relays (l l' : Loop) (told : List TransportStatus) : Prop
  | rests (same : l'.session.machine = l.session.machine) (silent : told = [])
    (still : l'.finished = l.finished)
  | steps (input : Reconnect.Input) (step : l'.session.machine = l.session.machine.step input)
    (moves : l'.session.machine.state ≠ l.session.machine.state)
    (once : told = [l'.session.status])
    (running : l'.finished = false → l'.session.machine.state ≠ .closed)

/-- The evaluator has the status of the session. The loop alone closes the
session, and when it does it is over; what is left of a report is left on an
open transport. -/
structure Attuned (l : Loop) : Prop where
  transport : l.client.liveness.transport = l.session.status
  running : l.finished = false → l.session.machine.state ≠ .closed
  sending : l.outbox ≠ [] → l.session.machine.state = .opened

variable {l l' : Loop} {hears : Bool} {now : Millis} {deed : Deed Float}

/-- A request made by the loop. -/
theorem answers_asking (l : Loop) : l.session.Answers l.asking.session l.reply :=
  .next l.session l.signals

/-- Nothing moves on a request that waits. -/
theorem machine_asking_of_pending (silent : l.reply = .pending) :
    l.asking.session.machine = l.session.machine := by
  have answers := l.answers_asking
  rw [silent] at answers
  cases answers with
  | waits same => exact same

/-- The end of the loop is the last step of the machine. -/
theorem relays_finish (running : l.session.machine.state ≠ .closed) :
    Relays l l.finish [.closed] := by
  have closed : l.finish.session.machine.state = .closed := l.session.state_close
  refine .steps .close rfl ?_ ?_ nofun
  · rw [closed]
    exact running.symm
  · rw [Session.status, Reconnect.status, closed]

theorem Attuned.relays_attends (h : Attuned l) (unfinished : l.finished = false)
    (does : Attends l now l' deed) (malformed : Tally) :
    Relays l l' (statuses (deed.operations now malformed)) := by
  cases does with
  | ends finished =>
    -- the session would be closed, and that the loop is not
    have answers := l.answers_asking
    rw [finished] at answers
    cases answers with
    | ends _ closed => exact absurd closed (h.running unfinished)
  | hears e told =>
    have answers := l.answers_asking
    rw [told] at answers
    cases answers with
    | brings m _ _ same => exact .rests same (by cases m <;> rfl) rfl
    | tells input steps moves running now =>
      refine .steps input steps moves ?_ fun _ => running
      rw [← now]
      rfl
  | applies silent | filters silent =>
    exact .rests (machine_asking_of_pending silent) rfl rfl
  | reports quiet | skipsReport quiet | polls quiet | draws quiet | asks quiet
  | skipsResync quiet | rests quiet =>
    exact .rests (machine_asking_of_pending quiet.silent) rfl rfl

/-- A turn that moves the machine tells of it, and a turn that tells has moved
the machine. -/
theorem Attuned.relays (h : Attuned l) (does : Turns hears l now l' deed) (malformed : Tally) :
    Relays l l' (statuses (deed.operations now malformed)) := by
  cases does with
  | stays | sends | withholds => exact .rests rfl rfl rfl
  | closes running => exact relays_finish (h.running running)
  | attends running _ _ does => exact h.relays_attends running does malformed

/-- A report that is being sent goes on only where one was. -/
theorem Turns.opened_of_outbox (h : Attuned l) (does : Turns hears l now l' deed)
    (left : l'.outbox ≠ []) : l'.session.machine.state = .opened := by
  cases does with
  | stays => exact h.sending left
  | sends _ m rest before =>
    apply h.sending
    rw [before]
    exact List.cons_ne_nil m rest
  | withholds => exact absurd rfl left
  | closes _ clear => exact absurd clear left
  | attends _ clear _ does =>
    cases does with
    | reports _ _ opened => exact of_decide_eq_true opened
    | _ => exact absurd clear left

/-- A turn leaves the loop attuned. -/
theorem Attuned.turns (h : Attuned l) (does : Turns hears l now l' deed) : Attuned l' := by
  have relays := h.relays does l'.session.malformed
  have transport : l'.client.liveness.transport =
      (statuses (deed.operations now l'.session.malformed)).getLastD l.session.status := by
    rw [does.client, Client.liveness_after, Liveness.transport_after, h.transport]
    rfl
  refine ⟨?_, ?_, does.opened_of_outbox h⟩
  · rw [transport]
    cases relays with
    | rests same silent =>
      rw [silent, Session.status, Session.status, same]
      rfl
    | steps _ _ _ once =>
      rw [once]
      rfl
  · cases relays with
    | rests same _ still =>
      rw [still, same]
      exact h.running
    | steps _ _ _ _ running => exact running

theorem Attuned.happen (h : Attuned l) (x : Happening) : Attuned (l.happen x) := by
  obtain ⟨client, session, outbox, finished⟩ := l.happen_frame x
  refine ⟨?_, ?_, ?_⟩
  · rw [client, session]
    exact h.transport
  · rw [finished, session]
    exact h.running
  · rw [outbox, session]
    exact h.sending

theorem Attuned.start (staleAfter : UInt64) (filter : Filter) (resyncs : Bool) :
    Attuned (start staleAfter filter resyncs) :=
  ⟨rfl, fun _ => nofun, absurd rfl⟩

end Loop

/-! ## Runs -/

namespace Course

open Loop (Attuned)

variable {c : Course}

theorem attuned_move (h : Attuned c.loop) (m : Move) : Attuned (c.move m).1.loop := by
  cases m with
  | happens x => exact h.happen x
  | turns hears now => exact h.turns (Loop.turns_turnAs _ c.loop now)

theorem attuned_after (h : Attuned c.loop) (moves : List Move) :
    Attuned (c.after moves).loop := by
  induction moves generalizing c with
  | nil => exact h
  | cons m rest ih => exact ih (attuned_move h m)

/-- The statuses to which the machine gets in a run. -/
def transitions (c : Course) : List Move → List TransportStatus
  | [] => []
  | m :: rest =>
    (if (c.move m).1.loop.session.machine = c.loop.session.machine then []
      else [(c.move m).1.loop.session.status]) ++ (c.move m).1.transitions rest

theorem statuses_asks (h : Attuned c.loop) (m : Move) :
    statuses (c.asks m) =
      if (c.move m).1.loop.session.machine = c.loop.session.machine then []
      else [(c.move m).1.loop.session.status] := by
  cases m with
  | happens x =>
    have same : (c.loop.happen x).session.machine = c.loop.session.machine :=
      congrArg Session.machine (c.loop.happen_frame x).2.1
    exact (if_pos same).symm
  | turns hears now =>
    cases h.relays (Loop.turns_turnAs (hears || c.waiting.isNone) c.loop now)
      (c.turn hears now).1.session.malformed with
    | rests same silent => exact silent.trans (if_pos same).symm
    | steps _ _ moves once =>
      exact once.trans (if_neg fun same => moves (congrArg Reconnect.state same)).symm

/-- Every transition is told, once and in its place. -/
theorem statuses_operations (h : Attuned c.loop) (moves : List Move) :
    statuses (c.operations moves) = c.transitions moves := by
  induction moves generalizing c with
  | nil => rfl
  | cons m rest ih =>
    rw [operations, Client.Operation.statuses_append, statuses_asks h, ih (attuned_move h m)]
    rfl

end Course

namespace Loop

/-- What is displayed, and what the session then is. -/
structure Displays (l : Loop) : Prop where
  transport : l.client.liveness.transport = l.session.status
  /-- Live or stale is said of an open connection with a socket. -/
  current : l.client.view.live = .live ∨ l.client.view.live = .stale →
    l.session.machine.state = .opened ∧ l.session.socket = true
  /-- Offline is said while the next attempt is waited for, or for good. -/
  offline : l.client.view.live = .offline ↔
    (∃ delay, l.session.machine.state = .waiting delay) ∨ l.session.machine.state = .closed

/-- What the next turn does to the connection and to what is displayed of it:
the loop before it and after it, and the deed. -/
structure Conveys (l l' : Loop) (now : Millis) (deed : Deed Float) : Prop where
  relays : Relays l l' (statuses (deed.operations now l'.session.malformed))
  /-- A request that is given up for another trigger has moved nothing. -/
  dropped : l.reply = .pending → l.asking.session.machine = l.session.machine
  /-- A report is made on an open transport. -/
  reports : ∀ messages, deed = .reported messages →
    l.client.liveness.transport = .opened ∧ l'.client.liveness.transport = .opened
  /-- And so is it sent. -/
  sends : ∀ text, deed = .sent text →
    l.client.liveness.transport = .opened ∧ l'.client.liveness.transport = .opened
  /-- With a frame goes the verdict at the end of the turn. -/
  shows : ∀ frame view, deed = .drew frame view → view = l'.client.view

theorem status_of_opened {s : Session} (opened : s.machine.state = .opened) :
    s.status = .opened := by
  rw [Session.status, Reconnect.status, opened]

theorem displays_of {l : Loop} (h : Attuned l) (sound : l.session.Sound)
    (drawn : l.client.liveness.state =
      .derive l.client.liveness.transport l.client.liveness.stream) : Displays l where
  transport := h.transport
  current := by
    intro shown
    have opened : l.session.machine.state = .opened := by
      change l.client.liveness.state = .live ∨ l.client.liveness.state = .stale at shown
      rw [drawn, h.transport, Session.status, Reconnect.status] at shown
      cases state : l.session.machine.state with
      | opened => rfl
      | _ => rw [state] at shown; rcases shown with live | stale <;> contradiction
    refine ⟨opened, ?_⟩
    rw [sound.socket, Session.isOpen, opened]
    rfl
  offline := by
    change l.client.liveness.state = .offline ↔ _
    rw [drawn, h.transport, Session.status, Reconnect.status]
    cases l.session.machine.state with
    | idle | connecting => exact iff_of_false (by rintro ⟨⟩) (by rintro (⟨_, no⟩ | no) <;> cases no)
    | opened =>
      refine iff_of_false ?_ (by rintro (⟨_, no⟩ | no) <;> cases no)
      cases l.client.liveness.stream <;> rintro ⟨⟩
    | waiting delay => exact iff_of_true rfl (.inl ⟨delay, rfl⟩)
    | closed => exact iff_of_true rfl (.inr rfl)

theorem conveys_of {l l' : Loop} {hears : Bool} {now : Millis} {deed : Deed Float}
    (h : Attuned l) (does : Turns hears l now l' deed) : Conveys l l' now deed where
  relays := h.relays does _
  dropped := machine_asking_of_pending
  reports := by
    rintro messages rfl
    have after := (h.turns does).transport
    obtain ⟨-, -, attends⟩ := does.attends_of_isTimed rfl
    cases attends with
    | reports quiet _ opened =>
      have now : l.asking.session.machine.state = .opened := of_decide_eq_true opened
      have before := machine_asking_of_pending quiet.silent
      refine ⟨h.transport.trans (status_of_opened ?_), after.trans (status_of_opened now)⟩
      rw [← before]
      exact now
  sends := by
    rintro text same
    cases does with
    | sends _ m rest left =>
      have opened : l.session.machine.state = .opened := by
        apply h.sending
        rw [left]
        exact List.cons_ne_nil m rest
      have transport := h.transport.trans (status_of_opened opened)
      exact ⟨transport, transport⟩
    | attends _ _ _ does => cases does <;> cases same
    | _ => cases same
  shows := by
    rintro frame view rfl
    obtain ⟨-, -, attends⟩ := does.attends_of_isTimed rfl
    cases attends with
    | draws => rfl

/-- **What is displayed is what the connection is.** After any moves, whatever
the peer did and in whatever order things were triggered, the evaluator has
the status of the session: live and stale are said of an open connection with
a socket, and offline exactly while the machine waits or is closed. What the
evaluator has been told are the transitions of the machine, each once and in
their order, since a session moves when it tells and not when a request is
given up; and no turn reports but on an open transport. -/
theorem displays_after (staleAfter : UInt64) (filter : Filter) (resyncs : Bool)
    (moves : List Move) :
    let first := Course.of (start staleAfter filter resyncs)
    let c := first.after moves
    let told := (first.operations moves).flatMap Client.Operation.notices
    Displays c.loop ∧
      c.loop.client.liveness = (Liveness.start staleAfter).after told ∧
      told.filterMap Liveness.Notice.status? = first.transitions moves ∧
      (∀ hears now, Conveys c.loop (c.turn hears now).1 now (c.turn hears now).2) ∧
      ∀ (s : Session) signals, s.Answers (s.next signals).1 (s.next signals).2.1 := by
  intro first c told
  have attuned : Attuned c.loop := Course.attuned_after (.start staleAfter filter resyncs) moves
  have liveness : c.loop.client.liveness = (Liveness.start staleAfter).after told := by
    rw [Course.client_after, Client.liveness_after]
    rfl
  refine ⟨displays_of attuned (inStep_after staleAfter filter resyncs moves).sound ?_, liveness,
    Course.statuses_operations (.start staleAfter filter resyncs) moves,
    fun hears now => conveys_of attuned (turns_turnAs _ c.loop now), Session.Answers.next⟩
  rw [liveness]
  exact (Liveness.reflects_after (.ofMillis staleAfter.toNat) told).state

end Loop

end AttackMap
