import AttackMap.Proofs.Loop.Attuned

/-!
# Resyncs as tasks of their own

A loop has one place for a resync that is not over. Behind it are tasks that
run beside the loop: each is begun by a turn, gets its answer whenever the
server gives one, puts its batch into the queue when there is room, and is
then over; what the loop keeps of them is a handle on the one begun last, of
which it asks only whether it is over. Here they are kept one by one, all
that were ever begun and in that order (`Crew`), and an answer or a delivery
names the task that it is for, so that any of them may come at any time.

A handle on one of them is enough. A task is begun only when the one before
it is over, so at most the last one is not (`Alone`); and move by move a crew
does what its loop does with its one place (`seen_move`). So what is known of
runs of loops is known of crews.
-/

namespace AttackMap

/-! ## Tasks -/

/-- Where a resync stands. -/
inductive Errand.Stage where
  /-- The answer is awaited. -/
  | asked
  /-- The events are there and wait for room in the queue. -/
  | delivering (events : List Event)
  /-- Over: the events have been put into the queue. -/
  | delivered (events : List Event)
  /-- Over: there were no events to be had. -/
  | refused (r : Resync.Refusal)
  /-- Over: the loop has ended first. -/
  | abandoned

/-- A resync that was begun at some time. -/
structure Errand where
  window : Window
  stage : Errand.Stage

namespace Errand

/-- What a loop has of a resync, until it is over. -/
def fetch? (e : Errand) : Option Fetch :=
  match e.stage with
  | .asked => some (.asked e.window)
  | .delivering events => some (.delivering events)
  | .delivered _ | .refused _ | .abandoned => none

def isOver (e : Errand) : Bool := e.fetch?.isNone

/-- The events that wait for room in the queue. -/
def delivering? (e : Errand) : Option (List Event) :=
  match e.stage with
  | .delivering events => some events
  | _ => none

/-- The events that have been put into the queue. -/
def delivered? (e : Errand) : Option (List Event) :=
  match e.stage with
  | .delivered events => some events
  | _ => none

/-- The answer comes, if it is awaited. -/
def answered (e : Errand) (answer : Except Resync.Refusal (List Event)) : Errand :=
  match e.stage, answer with
  | .asked, .ok events => { e with stage := .delivering events }
  | .asked, .error r => { e with stage := .refused r }
  | _, _ => e

/-- The events have been put into the queue. -/
def delivered (e : Errand) : Errand :=
  match e.stage with
  | .delivering events => { e with stage := .delivered events }
  | _ => e

/-- The loop has ended, and what is not over is given up. -/
def abandoned (e : Errand) : Errand := if e.isOver then e else { e with stage := .abandoned }

theorem answered_of_isOver {e : Errand} (ended : e.isOver = true)
    (answer : Except Resync.Refusal (List Event)) : e.answered answer = e := by
  obtain ⟨window, stage⟩ := e
  cases stage with
  | asked | delivering => cases ended
  | delivered | refused | abandoned => rfl

theorem delivering?_of_isOver {e : Errand} (ended : e.isOver = true) : e.delivering? = none := by
  obtain ⟨window, stage⟩ := e
  cases stage with
  | asked | delivering => cases ended
  | delivered | refused | abandoned => rfl

theorem fetch?_of_isOver {e : Errand} (ended : e.isOver = true) : e.fetch? = none :=
  Option.isNone_iff_eq_none.mp ended

theorem isOver_abandoned (e : Errand) : e.abandoned.isOver = true := by
  unfold abandoned
  split
  · next ended => exact ended
  · rfl

end Errand

/-! ## Crews -/

/-- A run, all resyncs begun in it, and the handle on the last of them. What the
loop of the run says of a resync is not looked at. -/
structure Crew where
  course : Course
  errands : List Errand
  handle : Option Nat

namespace Crew

/-- No resync has been begun. -/
def of (l : Loop) : Crew := ⟨.of l, [], none⟩

/-- What the handle says: the resync begun last, unless it is over. -/
def inFlight (c : Crew) : Option Fetch := (c.handle.bind (c.errands[·]?)).bind Errand.fetch?

/-- The run as the loop sees it. -/
def seen (c : Crew) : Course :=
  { c.course with loop := { c.course.loop with fetch := c.inFlight } }

/-- What may come next. -/
inductive Move where
  | signal (s : Signal)
  | call (c : Call)
  | strikes (c : Clock)
  /-- A task gets its answer. -/
  | answered (task : Nat) (answer : Except Resync.Refusal (List Event))
  /-- A task puts its batch into the queue, if it has one and there is room. -/
  | delivers (task : Nat)
  | turns (hears : Bool) (now : Millis)

/-- Something happens that is no matter to the tasks. -/
def happens (c : Crew) (h : Happening) : Crew :=
  { c with course := { c.course with loop := c.course.loop.happen h } }

/-- A batch gets into the queue. -/
def queues (c : Crew) (events : List Event) : Crew :=
  { c with course :=
      { c.course with loop :=
          { c.course.loop with batches := c.course.loop.batches ++ [events] } } }

/-- What a deed is to the tasks: a new one is begun, or the one under the handle
is given up. -/
def minds (c : Crew) : Deed Float → Crew
  | .asked window =>
    { c with errands := c.errands ++ [⟨window, .asked⟩], handle := some c.errands.length }
  | .closed =>
    { c with errands := c.handle.elim c.errands fun task => c.errands.modify task .abandoned }
  | _ => c

/-- What a move does, and the deed if it is a turn. -/
def move (c : Crew) : Move → Crew × Option (Deed Float)
  | .signal s => (c.happens (.signal s), none)
  | .call call => (c.happens (.call call), none)
  | .strikes clock => (c.happens (.strikes clock), none)
  | .answered task answer =>
    ({ c with errands := c.errands.modify task (·.answered answer) }, none)
  | .delivers task =>
    match c.errands[task]?.bind Errand.delivering? with
    | some events =>
      if c.course.loop.batches.length < Loop.queueLength then
        ({ c.queues events with errands := c.errands.modify task .delivered }, none)
      else (c, none)
    | none => (c, none)
  | .turns hears now =>
    let deed := (c.seen.turn hears now).2
    (({ c with course := (c.seen.move (.turns hears now)).1 } : Crew).minds deed, some deed)

/-- The crew after moves. -/
def after (c : Crew) (moves : List Move) : Crew := moves.foldl (fun c m => (c.move m).1) c

/-- The deeds of the turns among moves. -/
def deeds (c : Crew) : List Move → List (Deed Float)
  | [] => []
  | m :: rest => (c.move m).2.toList ++ (c.move m).1.deeds rest

theorem after_cons (c : Crew) (m : Move) (moves : List Move) :
    c.after (m :: moves) = (c.move m).1.after moves :=
  rfl

theorem after_append (c : Crew) (moves more : List Move) :
    c.after (moves ++ more) = (c.after moves).after more :=
  List.foldl_append

theorem deeds_append (c : Crew) (moves more : List Move) :
    c.deeds (moves ++ more) = c.deeds moves ++ (c.after moves).deeds more := by
  induction moves generalizing c with
  | nil => rfl
  | cons m rest ih => rw [List.cons_append, deeds, deeds, ih, List.append_assoc]; rfl

/-! ## One at a time -/

/-- The handle is on the task begun last, and all others are over. -/
inductive Alone (c : Crew) : Prop
  | idle (empty : c.errands = []) (free : c.handle = none)
  | last (older : List Errand) (e : Errand) (all : c.errands = older ++ [e])
    (handle : c.handle = some older.length) (ended : ∀ e ∈ older, e.isOver = true)

variable {c : Crew}

theorem inFlight_of_idle (free : c.handle = none) : c.inFlight = none := by
  rw [inFlight, free]
  rfl

theorem inFlight_of_last {older : List Errand} {e : Errand} (all : c.errands = older ++ [e])
    (handle : c.handle = some older.length) : c.inFlight = e.fetch? := by
  rw [inFlight, handle, all, Option.bind_some, List.getElem?_concat_length, Option.bind_some]

/-- All tasks are over when the handle says so. -/
theorem Alone.over_iff (h : Alone c) :
    c.inFlight = none ↔ ∀ e ∈ c.errands, e.isOver = true := by
  cases h with
  | idle empty free =>
    rw [empty]
    exact iff_of_true (inFlight_of_idle free) (List.forall_mem_nil _)
  | last older e all handle ended =>
    rw [inFlight_of_last all handle, all]
    constructor
    · intro last e' mem
      rcases List.mem_append.mp mem with earlier | here
      · exact ended e' earlier
      · rw [List.mem_singleton.mp here, Errand.isOver, last]
        rfl
    · intro every
      have last := every e (List.mem_append_right older (List.mem_singleton_self e))
      exact Errand.fetch?_of_isOver last

/-- A task that is not over is the last, and the handle is on it. -/
theorem Alone.last_of_not_over (h : Alone c) {task : Nat} {e : Errand}
    (is : c.errands[task]? = some e) (busy : e.isOver = false) :
    ∃ older, c.errands = older ++ [e] ∧ task = older.length ∧ c.handle = some task ∧
      ∀ e ∈ older, e.isOver = true := by
  cases h with
  | idle empty =>
    rw [empty] at is
    cases is
  | last older e' all handle ended =>
    rw [all] at is
    by_cases earlier : task < older.length
    · rw [List.getElem?_append_left earlier] at is
      have done := ended e (List.mem_of_getElem? is)
      rw [busy] at done
      cases done
    · rw [List.getElem?_append_right (Nat.le_of_not_lt earlier)] at is
      obtain ⟨here, same⟩ := List.getElem?_eq_some_iff.mp is
      rw [List.length_singleton] at here
      have task_eq : task = older.length := by omega
      subst task_eq
      refine ⟨older, ?_, rfl, handle, ended⟩
      rw [all, ← same, List.getElem_singleton]

theorem modify_eq_self_of_fixed {xs : List Errand} {i : Nat} {f : Errand → Errand}
    (fixed : ∀ e, xs[i]? = some e → f e = e) : xs.modify i f = xs := by
  apply List.ext_getElem?
  intro j
  by_cases same : i = j
  · subst same
    rw [List.getElem?_modify_eq]
    cases is : xs[i]? with
    | none => rfl
    | some e => exact congrArg some (fixed e is)
  · rw [List.getElem?_modify_ne f xs same]

theorem modify_concat (older : List Errand) (e : Errand) (f : Errand → Errand) :
    (older ++ [e]).modify older.length f = older ++ [f e] := by
  induction older with
  | nil => rfl
  | cons first rest ih => rw [List.cons_append, List.length_cons, List.modify_succ_cons, ih]; rfl

/-! ## What the loop sees -/

end Crew

theorem Course.deeds_append (c : Course) (moves more : List Move) :
    c.deeds (moves ++ more) = c.deeds moves ++ (c.after moves).deeds more := by
  induction moves generalizing c with
  | nil => rfl
  | cons m rest ih => rw [List.cons_append, deeds, deeds, ih, List.append_assoc]; rfl

/-- What a deed makes of the place that a loop has for a resync. -/
def Deed.Places (before after : Option Fetch) : Deed Float → Prop
  | .asked window => before = none ∧ after = some (.asked window)
  | .closed => after = none
  | _ => after = before

theorem Loop.Turns.places {l l' : Loop} {hears : Bool} {now : Millis} {deed : Deed Float}
    (does : Turns hears l now l' deed) : deed.Places l.fetch l'.fetch := by
  cases does with
  | attends _ _ _ does =>
    cases does with
    | asks _ _ _ free => exact ⟨free, rfl⟩
    | _ => rfl
  | _ => rfl

namespace Crew

variable {c : Crew}

/-- What a move is to the loop. One that is for a task other than that under
the handle is nothing to it. -/
def shown (c : Crew) : Move → List AttackMap.Move
  | .signal s => [.happens (.signal s)]
  | .call call => [.happens (.call call)]
  | .strikes clock => [.happens (.strikes clock)]
  | .answered task answer => if c.handle = some task then [.happens (.fetched answer)] else []
  | .delivers task => if c.handle = some task then [.happens .queued] else []
  | .turns hears now => [.turns hears now]

/-- What moves are to the loop. -/
def shownBy (c : Crew) : List Move → List AttackMap.Move
  | [] => []
  | m :: rest => c.shown m ++ (c.move m).1.shownBy rest

/-- A move after which a crew is as its loop says. -/
structure Follows (c : Crew) (m : Move) : Prop where
  alone : Alone (c.move m).1
  seen : (c.move m).1.seen = c.seen.after (c.shown m)
  deeds : (c.move m).2.toList = c.seen.deeds (c.shown m)

/-- A task that is not under the handle is over, if it is one at all. -/
theorem Alone.isOver_of_ne (h : Alone c) {task : Nat} (other : c.handle ≠ some task) {e : Errand}
    (is : c.errands[task]? = some e) : e.isOver = true := by
  by_contra busy
  obtain ⟨-, -, -, handle, -⟩ := h.last_of_not_over is (Bool.not_eq_true _ |>.mp busy)
  exact other handle

/-- Under the handle there is the task begun last. -/
theorem Alone.last_of_handle (h : Alone c) {task : Nat} (handle : c.handle = some task) :
    ∃ older e, c.errands = older ++ [e] ∧ task = older.length ∧ ∀ e ∈ older, e.isOver = true := by
  cases h with
  | idle _ free => cases free.symm.trans handle
  | last older e all on ended =>
    exact ⟨older, e, all, Option.some.inj (handle.symm.trans on), ended⟩

/-- A move that is nothing to the crew, and nothing to the loop. -/
theorem Alone.stays (h : Alone c) {m : Move} (same : c.move m = (c, none))
    (shows : c.seen.after (c.shown m) = c.seen) (silent : c.seen.deeds (c.shown m) = []) :
    Follows c m where
  alone := by rw [same]; exact h
  seen := by rw [same, shows]
  deeds := by rw [same, silent]; rfl

theorem Alone.answered (h : Alone c) (task : Nat) (answer : Except Resync.Refusal (List Event)) :
    Follows c (.answered task answer) := by
  by_cases handle : c.handle = some task
  · obtain ⟨older, e, all, rfl, ended⟩ := h.last_of_handle handle
    have errands :
        c.errands.modify older.length (·.answered answer) = older ++ [e.answered answer] := by
      rw [all, modify_concat]
    have before : c.inFlight = e.fetch? := inFlight_of_last all handle
    have now : (c.move (.answered older.length answer)).1.inFlight = (e.answered answer).fetch? :=
      inFlight_of_last errands handle
    refine ⟨.last older (e.answered answer) errands handle ended, ?_, ?_⟩
    · rw [seen, now, shown, if_pos handle, seen, before]
      obtain ⟨window, stage⟩ := e
      cases stage <;> cases answer <;> rfl
    · rw [shown, if_pos handle]
      rfl
  · have nothing : c.shown (.answered task answer) = [] := if_neg handle
    refine h.stays ?_ (by rw [nothing]; rfl) (by rw [nothing]; rfl)
    have fixed : c.errands.modify task (·.answered answer) = c.errands :=
      modify_eq_self_of_fixed fun e is => e.answered_of_isOver (h.isOver_of_ne handle is) answer
    rw [move, fixed]

/-- A batch that is delivered when there is room. -/
theorem move_delivers {task : Nat} {e : Errand} {events : List Event}
    (is : c.errands[task]? = some e) (holds : e.delivering? = some events)
    (room : c.course.loop.batches.length < Loop.queueLength) :
    c.move (.delivers task) =
      ({ c.queues events with errands := c.errands.modify task .delivered }, none) := by
  rw [move, is, Option.bind_some, holds]
  exact if_pos room

/-- Without a batch, or without room for it, nothing is delivered. -/
theorem move_delivers_eq_self {task : Nat}
    (idle : (∀ e, c.errands[task]? = some e → e.delivering? = none) ∨
      ¬c.course.loop.batches.length < Loop.queueLength) :
    c.move (.delivers task) = (c, none) := by
  rw [move]
  split
  · next events holds =>
    rcases idle with none | full
    · obtain ⟨e, is, delivering⟩ := Option.bind_eq_some_iff.mp holds
      cases (none e is).symm.trans delivering
    · exact if_neg full
  · rfl

theorem Alone.delivers (h : Alone c) (task : Nat) : Follows c (.delivers task) := by
  by_cases handle : c.handle = some task
  · obtain ⟨older, e, all, rfl, ended⟩ := h.last_of_handle handle
    have last : c.errands[older.length]? = some e := by rw [all, List.getElem?_concat_length]
    have before : c.seen.loop.fetch = e.fetch? := inFlight_of_last all handle
    have queued : c.shown (.delivers older.length) = [.happens .queued] := if_pos handle
    have stays (same : c.move (.delivers older.length) = (c, none))
        (shows : c.seen.loop.happen .queued = c.seen.loop) :
        Follows c (.delivers older.length) := by
      refine h.stays same ?_ (by rw [queued]; rfl)
      rw [queued]
      exact congrArg (Course.mk · c.course.waiting) shows
    obtain ⟨window, stage⟩ := e
    cases stage with
    | delivering events =>
      have happens : c.seen.loop.happen .queued =
          if c.course.loop.batches.length < Loop.queueLength then
            { c.seen.loop with fetch := none, batches := c.seen.loop.batches ++ [events] }
          else c.seen.loop := by
        rw [Loop.happen, before]
        rfl
      by_cases room : c.course.loop.batches.length < Loop.queueLength
      · have moved := move_delivers last rfl room
        rw [all, modify_concat] at moved
        have now : (c.move (.delivers older.length)).1.inFlight = none := by
          rw [moved]
          exact inFlight_of_last (e := ⟨window, .delivered events⟩) rfl handle
        rw [if_pos room] at happens
        refine ⟨?_, ?_, ?_⟩
        · rw [moved]
          exact .last older _ rfl handle ended
        · rw [queued, seen, now, moved]
          show _ = (⟨c.seen.loop.happen .queued, c.course.waiting⟩ : Course)
          rw [happens]
          rfl
        · rw [moved, queued]
          rfl
      · exact stays (move_delivers_eq_self (.inr room)) (happens.trans (if_neg room))
    | asked | delivered | refused | abandoned =>
      refine stays (move_delivers_eq_self (.inl ?_)) ?_
      · intro e is
        cases last.symm.trans is
        rfl
      · rw [Loop.happen, before]
        rfl
  · have nothing : c.shown (.delivers task) = [] := if_neg handle
    refine h.stays (move_delivers_eq_self (.inl ?_)) (by rw [nothing]; rfl) (by rw [nothing]; rfl)
    exact fun e is => e.delivering?_of_isOver (h.isOver_of_ne handle is)

/-- What a turn leaves of the tasks is what its loop has of a resync. -/
theorem Alone.minds (h : Alone c) {l : Loop} {waiting : Option Loop} {deed : Deed Float}
    (places : deed.Places c.inFlight l.fetch) :
    Alone (({ c with course := ⟨l, waiting⟩ } : Crew).minds deed) ∧
      (({ c with course := ⟨l, waiting⟩ } : Crew).minds deed).seen = ⟨l, waiting⟩ := by
  -- a crew whose handle says what the loop has shows the loop
  have shows {c' : Crew} (course : c'.course = ⟨l, waiting⟩) (same : l.fetch = c'.inFlight) :
      c'.seen = ⟨l, waiting⟩ := by
    rw [seen, course, ← same]
  have moved : Alone ({ c with course := ⟨l, waiting⟩ } : Crew) := by
    cases h with
    | idle empty free => exact .idle empty free
    | last older e all handle ended => exact .last older e all handle ended
  cases deed with
  | asked window =>
    refine ⟨.last c.errands ⟨window, .asked⟩ rfl rfl (h.over_iff.mp places.1), shows rfl ?_⟩
    rw [places.2]
    exact (inFlight_of_last (e := ⟨window, .asked⟩) rfl rfl).symm
  | closed =>
    cases h with
    | idle empty free =>
      have same : ({ c with course := ⟨l, waiting⟩ } : Crew).minds .closed =
          { c with course := ⟨l, waiting⟩ } := by
        rw [Crew.minds, free]
        rfl
      rw [same]
      exact ⟨moved, shows rfl (Eq.trans places (inFlight_of_idle free).symm)⟩
    | last older e all handle ended =>
      have same : ({ c with course := ⟨l, waiting⟩ } : Crew).minds .closed =
          ⟨⟨l, waiting⟩, older ++ [e.abandoned], c.handle⟩ := by
        rw [Crew.minds, handle, Option.elim_some, all, modify_concat]
      rw [same]
      have free : (⟨⟨l, waiting⟩, older ++ [e.abandoned], c.handle⟩ : Crew).inFlight = none :=
        (inFlight_of_last (c := ⟨⟨l, waiting⟩, _, c.handle⟩) rfl handle).trans
          (Errand.fetch?_of_isOver e.isOver_abandoned)
      exact ⟨.last older e.abandoned rfl handle ended, shows rfl (Eq.trans places free.symm)⟩
  | _ => exact ⟨moved, shows rfl places⟩

theorem Alone.turns (h : Alone c) (hears : Bool) (now : Millis) :
    Follows c (.turns hears now) := by
  have does := Loop.turns_turnAs (α := Float) (hears || c.seen.waiting.isNone) c.seen.loop now
  obtain ⟨alone, seen⟩ : Alone (c.move (.turns hears now)).1 ∧
      (c.move (.turns hears now)).1.seen = (c.seen.move (.turns hears now)).1 :=
    h.minds does.places
  exact ⟨alone, seen, rfl⟩

/-- **A handle on the last is enough.** A crew with one task at a time does move
by move what its loop does, and has one task at a time again. -/
theorem Alone.follows (h : Alone c) (m : Move) : Follows c m := by
  cases m with
  | answered task answer => exact h.answered task answer
  | delivers task => exact h.delivers task
  | turns hears now => exact h.turns hears now
  | signal | call | strikes =>
    refine ⟨?_, rfl, rfl⟩
    cases h with
    | idle empty free => exact .idle empty free
    | last older e all handle ended => exact .last older e all handle ended

theorem Alone.of (l : Loop) : Alone (of l) := .idle rfl rfl

/-- A run of a crew is a run of its loop. -/
theorem Alone.after (h : Alone c) (moves : List Move) :
    Alone (c.after moves) ∧ (c.after moves).seen = c.seen.after (c.shownBy moves) ∧
      c.deeds moves = c.seen.deeds (c.shownBy moves) := by
  induction moves generalizing c with
  | nil => exact ⟨h, rfl, rfl⟩
  | cons m rest ih =>
    obtain ⟨alone, seen, deeds⟩ := h.follows m
    obtain ⟨alone', seen', deeds'⟩ := ih alone
    refine ⟨alone', ?_, ?_⟩
    · rw [after_cons, seen', seen, shownBy, Course.after_append]
    · rw [Crew.deeds, deeds, deeds', seen, shownBy, Course.deeds_append]

end Crew

end AttackMap
