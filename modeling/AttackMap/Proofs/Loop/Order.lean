import AttackMap.Proofs.Loop.Turns

/-!
# The order of the loop

Handles, the stream and the clocks reach the loop in any order, and a turn
takes one thing. What the order of a turn is good for is said of the turn
that comes after any moves (`Orderly`):

- a clock has its turn only when nothing else is pending, and so a report,
  a frame and a resync go by the filter that all changes so far have come
  to, each change applied once and in its place;
- the two messages of a report go out one after the other, and what is left
  of them is held back once the client is closed;
- the first turn that begins in a closed client ends the loop, and the
  client is left as that turn found it, its status apart.

The invariant behind it is `InStep`: the client's filter is the one asked
for unless a change is pending.
-/

namespace AttackMap

/-! ## The filter of a client -/

namespace Client

theorem filter_onEvent (c : Client) (e : Event) : (c.onEvent e).1.filter = c.filter := rfl

theorem filter_onSession (c : Client) (e : SessionEvent) (now : Millis) :
    (c.onSession e now).filter = c.filter := by
  cases e with
  | status status => rfl
  | message m => cases m <;> rfl

theorem filter_onBatch (c : Client) (batch : List Event) :
    (c.onBatch batch).1.filter = c.filter := by
  induction batch generalizing c with
  | nil => rfl
  | cons e rest ih => exact (ih (c.onEvent e).1).trans (c.filter_onEvent e)

end Client

namespace Loop

/-! ## What was asked for -/

/-- The changes of the filter among moves, in order. -/
def edits (moves : List Move) : List (Filter → Filter) :=
  moves.filterMap fun
    | .happens (.call (.edit change)) => some change
    | _ => none

/-- What a filter comes to by the changes among moves. -/
def wanted (filter : Filter) (moves : List Move) : Filter :=
  (edits moves).foldl (fun f change => change f) filter

theorem wanted_append (filter : Filter) (moves more : List Move) :
    wanted filter (moves ++ more) = wanted (wanted filter moves) more := by
  rw [wanted, wanted, wanted, edits, List.filterMap_append, List.foldl_append]
  rfl

/-- The control, the client and the session of a loop in which `f` is the
filter asked for. -/
structure InStep (l : Loop) (f : Filter) : Prop where
  asked : l.control.filter = f
  /-- The client has taken the filter over unless a change is pending. -/
  taken : l.control.changed = false → l.client.filter = f
  sound : l.session.Sound

theorem InStep.start (staleAfter : UInt64) (filter : Filter) (resyncs : Bool) :
    InStep (start staleAfter filter resyncs) filter :=
  ⟨rfl, fun _ => rfl, Session.Sound.start⟩

/-- A happening leaves the client and the session alone. -/
theorem happen_frame (l : Loop) (h : Happening) :
    (l.happen h).client = l.client ∧ (l.happen h).session = l.session ∧
      (l.happen h).outbox = l.outbox ∧ (l.happen h).finished = l.finished := by
  cases h with
  | signal s => exact ⟨rfl, rfl, rfl, rfl⟩
  | call c => exact ⟨rfl, rfl, rfl, rfl⟩
  | strikes c => exact ⟨rfl, rfl, rfl, rfl⟩
  | fetched answer =>
    unfold happen
    dsimp only
    split <;> exact ⟨rfl, rfl, rfl, rfl⟩
  | queued =>
    unfold happen
    dsimp only
    split
    · split <;> exact ⟨rfl, rfl, rfl, rfl⟩
    · exact ⟨rfl, rfl, rfl, rfl⟩

/-- Only a call reaches the control. -/
theorem control_happen (l : Loop) (h : Happening) :
    (l.happen h).control = match h with
      | .call c => l.control.call c
      | _ => l.control := by
  cases h with
  | fetched answer =>
    unfold happen
    dsimp only
    split <;> rfl
  | queued =>
    unfold happen
    dsimp only
    split
    · split <;> rfl
    · rfl
  | _ => rfl

theorem InStep.happen {l : Loop} {f : Filter} (h : InStep l f) (x : Happening) :
    InStep (l.happen x) (wanted f [.happens x]) := by
  obtain ⟨client, session, -, -⟩ := l.happen_frame x
  have control := l.control_happen x
  refine ⟨?_, ?_, ?_⟩
  · rw [control]
    cases x with
    | call c =>
      cases c with
      | close => exact h.asked
      | edit change => exact congrArg change h.asked
    | _ => exact h.asked
  · rw [control, client]
    cases x with
    | call c =>
      cases c with
      | close => exact h.taken
      | edit change => exact fun unchanged => nomatch unchanged
    | _ => exact h.taken
  · rw [session]
    exact h.sound

/-- What a turn attends to leaves the loop in step. -/
theorem InStep.attends {α : Type} [Scalar α] {l l' : Loop} {f : Filter} {now : Millis}
    {deed : Deed α} (h : InStep l f) (does : Attends l now l' deed) : InStep l' f := by
  have asking : InStep l.asking f := ⟨h.asked, h.taken, h.sound.next l.signals⟩
  cases does with
  | ends => exact ⟨h.asked, h.taken, Session.Sound.close _⟩
  | hears e =>
    have same := l.client.filter_onSession e now
    exact ⟨h.asked, fun unchanged => same.trans (h.taken unchanged), asking.sound⟩
  | applies silent batch =>
    have same := l.client.filter_onBatch batch
    exact ⟨h.asked, fun unchanged => same.trans (h.taken unchanged), asking.sound⟩
  | filters => exact ⟨h.asked, fun _ => h.asked, asking.sound⟩
  | reports | skipsReport | polls | draws | asks | skipsResync | rests =>
    exact ⟨h.asked, h.taken, asking.sound⟩

theorem InStep.turns {α : Type} [Scalar α] {l l' : Loop} {f : Filter} {hears : Bool} {now : Millis}
    {deed : Deed α} (h : InStep l f) (does : Turns hears l now l' deed) : InStep l' f := by
  cases does with
  | stays => exact h
  | sends => exact ⟨h.asked, h.taken, h.sound⟩
  | withholds => exact ⟨h.asked, h.taken, h.sound⟩
  | closes => exact ⟨h.asked, h.taken, Session.Sound.close _⟩
  | attends _ _ _ does => exact h.attends does

/-- After any moves the loop is in step with the changes made among them. -/
theorem inStep_after (staleAfter : UInt64) (filter : Filter) (resyncs : Bool)
    (moves : List Move) :
    InStep ((Course.of (start staleAfter filter resyncs)).after moves).loop
      (wanted filter moves) := by
  -- from the end of the run: what was wanted so far is what the last move finds
  induction moves using List.reverseRecOn with
  | nil => exact InStep.start staleAfter filter resyncs
  | append_singleton moves m ih =>
    rw [wanted_append]
    cases m with
    | happens h =>
      rw [Course.after_happens]
      exact ih.happen h
    | turns hears now =>
      rw [Course.loop_after_turns]
      exact ih.turns (turns_turnAs _ _ now)

/-! ## A turn that waits -/

/-- The turn that waits, if one does, began with nothing pending. -/
def Waits (c : Course) : Prop :=
  c.loop.finished = true ∨
    ∀ began ∈ c.waiting, began.Quiet ∧ began.control.closed = false

theorem Waits.turns {c : Course} (h : Waits c) (hears : Bool) (now : Millis) :
    Waits (c.move (.turns hears now)).1 := by
  have does := turns_turnAs (α := Float) (hears || c.waiting.isNone) c.loop now
  rw [Course.move, Course.turn]
  generalize (c.loop.turnAs (hears || c.waiting.isNone) now : Loop × Deed Float) = turn at does ⊢
  obtain ⟨l, deed⟩ := turn
  cases idle : deed.isIdle with
  | false =>
    -- a turn that did something is over, and none waits
    refine .inr fun began mem => ?_
    simp only [idle] at mem
    cases mem
  | true =>
    cases does with
    | stays finished => exact .inl finished
    | attends running clear opened does =>
      cases does with
      | rests quiet =>
        -- it begins to wait here, or it has waited all along
        refine .inr fun began mem => ?_
        cases mem
        cases waiting : c.waiting with
        | none =>
          rw [Course.began, waiting]
          exact ⟨quiet, opened (by rw [waiting]; exact Bool.or_true hears)⟩
        | some began =>
          rw [Course.began, waiting]
          exact (h.resolve_left (by rw [running]; exact Bool.false_ne_true)) began waiting
      | _ => cases idle
    | _ => cases idle

theorem waits_after (l : Loop) (moves : List Move) : Waits ((Course.of l).after moves) := by
  induction moves using List.reverseRecOn with
  | nil => exact .inr fun _ mem => nomatch mem
  | append_singleton moves m ih =>
    cases m with
    | happens h =>
      rw [Course.after_happens]
      obtain ⟨-, -, -, finished⟩ := ((Course.of l).after moves).loop.happen_frame h
      exact ih.imp_left finished.trans
    | turns hears now =>
      rw [Course.after_append]
      exact ih.turns hears now

/-! ## The close -/

theorem closed_happen (l : Loop) (h : Happening) :
    (l.happen h).control.closed = true ↔ l.control.closed = true ∨ h = .call .close := by
  rw [l.control_happen h]
  cases h with
  | call c =>
    cases c with
    | close => exact iff_of_true rfl (.inr rfl)
    | edit change => simp [Control.call]
  | _ => simp

/-- A turn neither closes nor opens. -/
theorem Turns.closed {α : Type} [Scalar α] {l l' : Loop} {hears : Bool} {now : Millis}
    {deed : Deed α} (does : Turns hears l now l' deed) :
    l'.control.closed = l.control.closed := by
  cases does with
  | attends _ _ _ does => cases does <;> rfl
  | _ => rfl

/-- A loop is closed by the calls that close it and by nothing else. -/
theorem closed_after (c : Course) (moves : List Move) :
    (c.after moves).loop.control.closed = true ↔
      c.loop.control.closed = true ∨ .happens (.call .close) ∈ moves := by
  induction moves using List.reverseRecOn with
  | nil => simp [Course.after]
  | append_singleton moves m ih =>
    rw [List.mem_append, List.mem_singleton, ← or_assoc, ← ih]
    cases m with
    | happens h =>
      rw [Course.after_happens, closed_happen]
      refine or_congr_right ⟨fun same => by rw [same], fun same => ?_⟩
      cases same
      rfl
    | turns hears now =>
      have same := (turns_turnAs (α := Float) (hears || (c.after moves).waiting.isNone)
        (c.after moves).loop now).closed
      rw [Course.loop_after_turns, Course.turn, same]
      exact ⟨.inl, fun h => h.resolve_right fun same => nomatch same⟩

/-- A loop that is over stays as it is, whatever happens. -/
theorem after_finished {c : Course} (finished : c.loop.finished = true) (moves : List Move) :
    (c.after moves).loop.client = c.loop.client ∧
      ∀ deed ∈ c.deeds moves, deed = .idle := by
  -- from the front, as the deeds are collected
  induction moves generalizing c with
  | nil => exact ⟨rfl, List.forall_mem_nil _⟩
  | cons m rest ih =>
    cases m with
    | happens h =>
      obtain ⟨client, -, -, still⟩ := c.loop.happen_frame h
      obtain ⟨kept, idle⟩ := ih (c := ⟨c.loop.happen h, c.waiting⟩) (still.trans finished)
      exact ⟨kept.trans client, idle⟩
    | turns hears now =>
      have still : c.turn hears now = (c.loop, .idle) := by
        rw [Course.turn, turnAs, finished, Bool.or_true, Bool.true_or, if_pos rfl,
          turn_of_finished finished]
      have moved : c.move (.turns hears now) = (⟨c.loop, some c.began⟩, some .idle) := by
        rw [Course.move, still]
        rfl
      obtain ⟨kept, idle⟩ := ih (c := ⟨c.loop, some c.began⟩) finished
      refine ⟨?_, ?_⟩
      · rw [Course.after, List.foldl_cons, moved]
        exact kept
      · rw [Course.deeds, moved]
        exact List.forall_mem_cons.mpr ⟨rfl, idle⟩

/-! ## Happenings before a turn -/

/-- The loop after happenings. -/
def amid (l : Loop) (hs : List Happening) : Loop := hs.foldl happen l

theorem amid_frame (l : Loop) (hs : List Happening) :
    (l.amid hs).session = l.session ∧ (l.amid hs).outbox = l.outbox ∧
      (l.amid hs).finished = l.finished := by
  induction hs generalizing l with
  | nil => exact ⟨rfl, rfl, rfl⟩
  | cons h rest ih =>
    obtain ⟨-, session, outbox, finished⟩ := l.happen_frame h
    obtain ⟨session', outbox', finished'⟩ := ih (l.happen h)
    exact ⟨session'.trans session, outbox'.trans outbox, finished'.trans finished⟩

theorem closed_amid (l : Loop) (hs : List Happening) :
    (l.amid hs).control.closed = true ↔ l.control.closed = true ∨ .call .close ∈ hs := by
  induction hs generalizing l with
  | nil => simp [amid]
  | cons h rest ih =>
    refine (ih (l.happen h)).trans ?_
    rw [closed_happen, List.mem_cons, or_assoc, eq_comm (a := h)]

/-- A message that is left is sent, the happenings before it being no matter
unless they close the loop. -/
theorem turn_amid {l : Loop} (running : l.finished = false) (socket : l.session.socket = true)
    {m : Outbound} {rest : List Outbound} (left : l.outbox = m :: rest) (hs : List Happening)
    (now : Millis) :
    ((l.amid hs).control.closed = true →
      ((l.amid hs).turn now : Loop × Deed Float) = ({ l.amid hs with outbox := [] }, .withheld)) ∧
    ((l.amid hs).control.closed = false →
      ((l.amid hs).turn now : Loop × Deed Float) =
        ({ l.amid hs with outbox := rest }, .sent (some m.encode))) := by
  obtain ⟨session, outbox, finished⟩ := l.amid_frame hs
  have text : (l.amid hs).session.send m = some m.encode := by
    rw [session, Session.send, if_pos socket]
  rw [turn_of_left (finished.trans running) (outbox.trans left), text]
  constructor
  · intro closed
    rw [if_pos closed]
  · intro opened
    rw [opened, if_neg Bool.false_ne_true]

/-! ## The order -/

/-- A turn in its order: the run `c` so far, `f` being the filter asked for,
the run `c'` after the turn, and the deed. -/
structure Orderly (c : Course) (f : Filter) (hears : Bool) (now : Millis) (c' : Course)
    (deed : Deed Float) : Prop where
  /-- A clock has its turn only if nothing else was pending when the turn
  began, nor is when it acts. -/
  quiet : deed.isTimed = true →
    c.began.Quiet ∧ c.began.control.closed = false ∧ c.loop.Quiet
  /-- A report is a telemetry and the declaration of the filter asked for. -/
  declares : ∀ messages, deed = .reported messages →
    ∃ load : LoadReport, messages = [load.telemetry, f.declare]
  /-- A frame is drawn by the filter asked for. -/
  draws : ∀ frame view, deed = .drew frame view → frame = .of c.loop.client.store.snapshot f now
  /-- A resync asks for the window of the filter asked for. -/
  asks : ∀ window, deed = .asked window → window = f.window
  /-- The messages of a report are what the next turns send, one after the
  other, whatever happens before each of them, and none once the client is
  closed. -/
  sends : ∀ first second, deed = .reported [first, second] →
    ∀ (before between : List Happening) (now₁ now₂ : Millis),
      let next : Loop × Deed Float := (c'.loop.amid before).turn now₁
      let last : Loop × Deed Float := (next.1.amid between).turn now₂
      (c.loop.control.closed = false → Happening.call .close ∉ before →
        next.2 = .sent (some first.encode) ∧
        (Happening.call .close ∉ between → last.2 = .sent (some second.encode)) ∧
        (Happening.call .close ∈ between → last.2 = .withheld)) ∧
      (c.loop.control.closed = true ∨ Happening.call .close ∈ before →
        next = ({ c'.loop.amid before with outbox := [] }, .withheld))
  /-- What is left of a report is held back once the client is closed. -/
  withholds : c.loop.finished = false → c.loop.outbox ≠ [] → c.loop.control.closed = true →
    c'.loop = { c.loop with outbox := [] } ∧ deed = .withheld
  /-- The first turn that begins in a closed client ends the loop, and so does
  one that has waited and hears of the close. The client is left as it is but
  for its status, and nothing is done any more. -/
  ends : hears = true ∨ c.waiting = none → c.loop.finished = false → c.loop.outbox = [] →
    c.loop.control.closed = true →
      deed = .closed ∧
      c'.loop.client =
        { c.loop.client with liveness := c.loop.client.liveness.onTransport .closed } ∧
      ∀ more, (c'.after more).loop.client = c'.loop.client ∧ ∀ deed ∈ c'.deeds more, deed = .idle

/-- The two messages of a report go out one after the other. -/
theorem goes_out {l : Loop} (running : l.finished = false) (socket : l.session.socket = true)
    {first second : Outbound} (left : l.outbox = [first, second])
    (before between : List Happening) (now₁ now₂ : Millis) :
    let next : Loop × Deed Float := (l.amid before).turn now₁
    let last : Loop × Deed Float := (next.1.amid between).turn now₂
    (l.control.closed = false → Happening.call .close ∉ before →
      next.2 = .sent (some first.encode) ∧
      (Happening.call .close ∉ between → last.2 = .sent (some second.encode)) ∧
      (Happening.call .close ∈ between → last.2 = .withheld)) ∧
    (l.control.closed = true ∨ Happening.call .close ∈ before →
      next = ({ l.amid before with outbox := [] }, .withheld)) := by
  obtain ⟨session, -, finished⟩ := l.amid_frame before
  obtain ⟨holds, goes⟩ := turn_amid running socket left before now₁
  refine ⟨fun opened quiet => ?_, fun closed => holds ((closed_amid l before).mpr closed)⟩
  have still : (l.amid before).control.closed = false := by
    rw [← Bool.not_eq_true, closed_amid, not_or, opened]
    exact ⟨Bool.false_ne_true, quiet⟩
  rw [goes still]
  -- the loop is as it was but for what is left, so the same holds of the second message
  obtain ⟨holds', goes'⟩ := turn_amid (l := { l.amid before with outbox := [second] })
    (finished.trans running) ((congrArg Session.socket session).trans socket) rfl between now₂
  refine ⟨rfl, fun quiet' => ?_, fun closed => ?_⟩
  · rw [goes']
    rw [← Bool.not_eq_true, closed_amid, not_or]
    exact ⟨Bool.not_eq_true _ |>.mpr still, quiet'⟩
  · rw [holds' ((closed_amid _ between).mpr (.inr closed))]

/-- A turn that acts for a clock began with nothing pending. -/
theorem Waits.quiet {c : Course} (h : Waits c) {hears : Bool} {now : Millis} {l' : Loop}
    {deed : Deed Float} (does : Turns (hears || c.waiting.isNone) c.loop now l' deed)
    (timed : deed.isTimed = true) :
    c.began.Quiet ∧ c.began.control.closed = false ∧ c.loop.Quiet := by
  obtain ⟨running, opened, attends⟩ := does.attends_of_isTimed timed
  have quiet := attends.quiet timed
  cases waiting : c.waiting with
  | none =>
    rw [Course.began, waiting]
    exact ⟨quiet, opened (by rw [waiting]; exact Bool.or_true hears), quiet⟩
  | some began =>
    have alone := h.resolve_left (by rw [running]; exact Bool.false_ne_true) began waiting
    rw [Course.began, waiting]
    exact ⟨alone.1, alone.2, quiet⟩

theorem orderly_of_turns {c c' : Course} {f : Filter} {hears : Bool} {now : Millis}
    {deed : Deed Float} (step : InStep c.loop f) (waits : Waits c)
    (does : Turns (hears || c.waiting.isNone) c.loop now c'.loop deed) :
    Orderly c f hears now c' deed := by
  obtain ⟨l', waiting'⟩ := c'
  constructor
  case quiet => exact waits.quiet does
  case declares =>
    rintro messages rfl
    obtain ⟨-, -, attends⟩ := does.attends_of_isTimed rfl
    cases attends with
    | reports quiet =>
      rw [← step.taken quiet.unchanged]
      exact ⟨_, rfl⟩
  case draws =>
    rintro frame view rfl
    obtain ⟨-, -, attends⟩ := does.attends_of_isTimed rfl
    cases attends with
    | draws quiet =>
      rw [← step.taken quiet.unchanged]
      rfl
  case asks =>
    rintro window rfl
    obtain ⟨-, -, attends⟩ := does.attends_of_isTimed rfl
    cases attends with
    | asks quiet => rw [step.taken quiet.unchanged]
  case sends =>
    intro first second same
    obtain ⟨running, -, attends⟩ := does.attends_of_isTimed (by rw [same]; rfl)
    cases attends with
    | reports quiet due opened =>
      have socket : c.loop.asking.session.socket = true :=
        (step.sound.next c.loop.signals).socket.trans opened
      exact goes_out (l := { c.loop.asking.heed .report with client := _, outbox := _ })
        running socket (Deed.reported.inj same)
    | _ => cases same
  case withholds =>
    intro running left closed
    cases does with
    | stays finished => cases running.symm.trans finished
    | sends _ _ _ _ opened => cases opened.symm.trans closed
    | withholds => exact ⟨rfl, rfl⟩
    | closes _ clear => exact absurd clear left
    | attends _ clear => exact absurd clear left
  case ends =>
    intro hear running clear closed
    cases does with
    | stays finished => cases running.symm.trans finished
    | sends _ m rest left => cases clear.symm.trans left
    | withholds _ left => exact absurd clear left
    | closes => exact ⟨rfl, rfl, after_finished rfl⟩
    | attends _ _ opened =>
      -- a turn that hears of the close attends to nothing else
      have heard : (hears || c.waiting.isNone) = true := by
        rcases hear with rfl | none
        · rfl
        · rw [none]
          exact Bool.or_true hears
      cases (opened heard).symm.trans closed

/-- **The order of the loop.** Whatever moves have been made, the turn that
comes next is an orderly one, by the filter that all changes so far have
come to; and the loop is closed exactly if it was asked to close. -/
theorem orderly_after (staleAfter : UInt64) (filter : Filter) (resyncs : Bool)
    (moves : List Move) (hears : Bool) (now : Millis) :
    let c := (Course.of (start staleAfter filter resyncs)).after moves
    (c.loop.control.closed = true ↔ .happens (.call .close) ∈ moves) ∧
      Orderly c (wanted filter moves) hears now (c.move (.turns hears now)).1
        (c.turn hears now).2 := by
  intro c
  constructor
  · refine (closed_after _ moves).trans ⟨fun h => h.resolve_left ?_, .inr⟩
    exact Bool.false_ne_true
  · exact orderly_of_turns (inStep_after staleAfter filter resyncs moves) (waits_after _ moves)
      (turns_turnAs _ c.loop now)

end Loop

end AttackMap
