import AttackMap.Proofs.Loop.Batches
import AttackMap.Proofs.Loop.Errands

/-!
# What becomes of a resync

The events that a resync brings go through three hands: the task that asked
for them, the queue, and the turn that gives them to the client. What is
known of a run at any time is where each of them is (`Crew.Accounts`): in
the order in which the tasks were begun, those that the client has had, then
those in the queue, then those for which there is no room yet.

What a move can do to a task is said once (`Errand.Goes`): it brings its
events to the client unless it is refused or the loop ends first. A refusal
is nothing to the client, and it leaves no task that would keep the next
from being begun.
-/

namespace AttackMap

/-! ## Moves that are no matter of the tasks -/

namespace Crew

variable {c : Crew}

/-- What a move is to the loop whatever the tasks are. -/
def Move.common? : Move → Option AttackMap.Move
  | .signal s => some (.happens (.signal s))
  | .call x => some (.happens (.call x))
  | .strikes clock => some (.happens (.strikes clock))
  | .turns hears now => some (.turns hears now)
  | .answered .. | .delivers _ => none

/-- What moves are to the loop, answers and deliveries apart. -/
def common (moves : List Move) : List AttackMap.Move := moves.filterMap Move.common?

/-- What is looked for neither in answers nor in deliveries is found in the common
moves. -/
theorem filterMap_shownBy {β : Type} {f : AttackMap.Move → Option β}
    (fetched : ∀ answer, f (.happens (.fetched answer)) = none)
    (queued : f (.happens .queued) = none) (c : Crew) (moves : List Move) :
    (c.shownBy moves).filterMap f = (common moves).filterMap f := by
  have one (c : Crew) (m : Move) : (c.shown m).filterMap f = m.common?.toList.filterMap f := by
    cases m with
    | answered task answer =>
      rw [shown]
      split
      · exact List.filterMap_cons_none (fetched answer)
      · rfl
    | delivers task =>
      rw [shown]
      split
      · exact List.filterMap_cons_none queued
      · rfl
    | signal | call | strikes | turns => rfl
  induction moves generalizing c with
  | nil => rfl
  | cons m rest ih =>
    have first : common (m :: rest) = m.common?.toList ++ common rest := by
      cases m <;> rfl
    rw [shownBy, first, List.filterMap_append, List.filterMap_append, one, ih]

/-- The filter asked for is that of the common moves. -/
theorem wanted_shownBy (filter : Filter) (c : Crew) (moves : List Move) :
    Loop.wanted filter (c.shownBy moves) = Loop.wanted filter (common moves) :=
  congrArg (List.foldl _ filter) (filterMap_shownBy (fun _ => rfl) rfl c moves)

end Crew

/-! ## The life of a task -/

/-- The events that a task has got, unless it was given up since. -/
def Errand.events? (e : Errand) : Option (List Event) :=
  match e.stage with
  | .delivering events | .delivered events => some events
  | .asked | .refused _ | .abandoned => none

/-- What a move does to a task, the deed being given if it is a turn. -/
inductive Errand.Goes (task : Nat) (m : Crew.Move) (deed : Option (Deed Float)) :
    Errand → Errand → Prop
  | rests (e : Errand) : Goes task m deed e e
  | brings (window : Window) (events : List Event) (answer : m = .answered task (.ok events)) :
    Goes task m deed ⟨window, .asked⟩ ⟨window, .delivering events⟩
  | fails (window : Window) (r : Resync.Refusal) (answer : m = .answered task (.error r)) :
    Goes task m deed ⟨window, .asked⟩ ⟨window, .refused r⟩
  | delivers (window : Window) (events : List Event) (goes : m = .delivers task) :
    Goes task m deed ⟨window, .delivering events⟩ ⟨window, .delivered events⟩
  /-- Only the end of the loop makes a task give up. -/
  | givenUp (e : Errand) (busy : e.isOver = false) (closed : deed = some .closed) :
    Goes task m deed e ⟨e.window, .abandoned⟩

namespace Errand

variable {task : Nat} {m : Crew.Move} {deed : Option (Deed Float)}

theorem goes_answered (e : Errand) (task : Nat) (answer : Except Resync.Refusal (List Event)) :
    Goes task (.answered task answer) deed e (e.answered answer) := by
  obtain ⟨window, stage⟩ := e
  cases stage with
  | asked =>
    cases answer with
    | ok events => exact .brings window events rfl
    | error r => exact .fails window r rfl
  | _ => exact .rests _

theorem goes_delivered (e : Errand) (task : Nat) :
    Goes task (.delivers task) deed e e.delivered := by
  obtain ⟨window, stage⟩ := e
  cases stage with
  | delivering events => exact .delivers window events rfl
  | _ => exact .rests _

theorem goes_abandoned (e : Errand) (task : Nat) (m : Crew.Move) :
    Goes task m (some .closed) e e.abandoned := by
  rw [abandoned]
  split
  · exact .rests e
  · next busy => exact .givenUp e (Bool.not_eq_true _ |>.mp busy) rfl

/-- A task keeps its window. -/
theorem Goes.window {e e' : Errand} (h : Goes task m deed e e') : e'.window = e.window := by
  cases h <;> rfl

end Errand

namespace Crew

variable {c : Crew}

theorem getElem?_modify_goes {xs : List Errand} {task : Nat} {e : Errand} (is : xs[task]? = some e)
    {m : Move} {deed : Option (Deed Float)} {other : Nat} {f : Errand → Errand}
    (goes : other = task → Errand.Goes task m deed e (f e)) :
    ∃ e', (xs.modify other f)[task]? = some e' ∧ Errand.Goes task m deed e e' := by
  by_cases same : other = task
  · subst same
    refine ⟨f e, ?_, goes rfl⟩
    rw [List.getElem?_modify_eq, is]
    rfl
  · refine ⟨e, ?_, .rests e⟩
    rw [List.getElem?_modify_ne f xs same, is]

/-- The life of a task, one move of it. -/
theorem goes (c : Crew) (m : Move) {task : Nat} {e : Errand} (is : c.errands[task]? = some e) :
    ∃ e', (c.move m).1.errands[task]? = some e' ∧ e.Goes task m (c.move m).2 e' := by
  cases m with
  | signal | call | strikes => exact ⟨e, is, .rests e⟩
  | answered other answer =>
    refine getElem?_modify_goes is ?_
    rintro rfl
    exact e.goes_answered other answer
  | delivers other =>
    rw [move]
    split
    · split
      · refine getElem?_modify_goes is ?_
        rintro rfl
        exact e.goes_delivered other
      · exact ⟨e, is, .rests e⟩
    · exact ⟨e, is, .rests e⟩
  | turns hears now =>
    rw [move]
    dsimp only
    generalize (c.seen.turn hears now).2 = deed
    cases deed with
    | asked window =>
      have earlier : task < c.errands.length := (List.getElem?_eq_some_iff.mp is).1
      exact ⟨e, (List.getElem?_append_left earlier).trans is, .rests e⟩
    | closed =>
      rw [minds]
      dsimp only
      cases c.handle with
      | none => exact ⟨e, is, .rests e⟩
      | some other => exact getElem?_modify_goes is fun _ => e.goes_abandoned task _
    | _ => exact ⟨e, is, .rests e⟩

/-! ## Where the batches are -/

/-- The batches that moves give to the client. -/
def applied (c : Crew) (moves : List Move) : List (List Event) :=
  (c.deeds moves).filterMap Deed.applied?

/-- The events of tasks that are over are in the queue or have been; those of the
last may still wait for room. -/
theorem Alone.events (h : Alone c) :
    c.errands.filterMap Errand.events? =
      c.errands.filterMap Errand.delivered? ++ c.errands.filterMap Errand.delivering? := by
  cases h with
  | idle empty free =>
    rw [empty]
    rfl
  | last older e all handle ended =>
    have done : older.filterMap Errand.events? = older.filterMap Errand.delivered? := by
      refine List.filterMap_congr fun e mem => ?_
      have ended := ended e mem
      obtain ⟨window, stage⟩ := e
      cases stage with
      | asked | delivering => cases ended
      | delivered | refused | abandoned => rfl
    have none_waits : older.filterMap Errand.delivering? = [] :=
      List.filterMap_eq_nil_iff.mpr fun e mem => Errand.delivering?_of_isOver (ended e mem)
    rw [all, List.filterMap_append, List.filterMap_append, List.filterMap_append, done, none_waits,
      List.nil_append, List.append_assoc]
    obtain ⟨window, stage⟩ := e
    cases stage <;> rfl

/-! ## How a task is begun -/

/-- A move that begins a task: the deed asks for the window of the filter in
force, which is `f`. -/
structure Begins (c : Crew) (f : Filter) (m : Move) (task : Nat) (window : Window) : Prop where
  /-- So many tasks were begun before. -/
  place : task = c.errands.length
  deed : (c.move m).2 = some (.asked window)
  inForce : c.course.loop.client.filter = f
  asks : window = f.window

/-- What is known of the loop of a crew. -/
theorem inStep_after (staleAfter : UInt64) (filter : Filter) (resyncs : Bool) (moves : List Move) :
    Loop.InStep ((of (.start staleAfter filter resyncs)).after moves).seen.loop
      (Loop.wanted filter (common moves)) := by
  obtain ⟨-, seen, -⟩ := (Alone.of (.start staleAfter filter resyncs)).after moves
  rw [seen, ← wanted_shownBy]
  exact Loop.inStep_after staleAfter filter resyncs _

theorem attuned_after (staleAfter : UInt64) (filter : Filter) (resyncs : Bool) (moves : List Move) :
    Loop.Attuned ((of (.start staleAfter filter resyncs)).after moves).seen.loop := by
  obtain ⟨-, seen, -⟩ := (Alone.of (.start staleAfter filter resyncs)).after moves
  rw [seen]
  exact Course.attuned_after (.start staleAfter filter resyncs) _

end Crew

/-! ## Ticks -/

namespace Crew

variable {c : Crew}

/-- A task is begun only when all others are over, and a tick is passed over only
when one is not. -/
theorem Alone.asked (h : Alone c) (m : Move) :
    (∀ window, (c.move m).2 = some (.asked window) → ∀ e ∈ c.errands, e.isOver = true) ∧
      ((c.move m).2 = some (.skipped .resync) → ∃ e ∈ c.errands, e.isOver = false) := by
  have quiet {deed : Deed Float} (same : (c.move m).2 = some deed) :
      ∃ hears now, m = .turns hears now ∧ (c.seen.turn hears now).2 = deed := by
    cases m with
    | turns hears now => exact ⟨hears, now, rfl, Option.some.inj same⟩
    | delivers task =>
      rw [move] at same
      split at same
      · split at same <;> cases same
      · cases same
    | signal | call | strikes | answered => cases same
  constructor
  · intro window deed
    obtain ⟨hears, now, -, same⟩ := quiet deed
    have places := (c.seen.turns_turn hears now).places
    rw [same] at places
    exact h.over_iff.mp places.1
  · intro deed
    obtain ⟨hears, now, -, same⟩ := quiet deed
    have does := c.seen.turns_turn hears now
    rw [same] at does
    generalize (c.seen.turn hears now).1 = l' at does
    have busy : c.inFlight ≠ none := by
      intro free
      cases does with
      | attends _ _ _ does =>
        cases does with
        | skipsResync _ _ _ busy =>
          rw [show c.seen.loop.fetch = none from free] at busy
          cases busy
    by_contra none
    refine busy (h.over_iff.mpr fun e mem => ?_)
    by_contra not
    exact none ⟨e, mem, Bool.not_eq_true _ |>.mp not⟩

/-- What is known of a crew after moves, `filter` being that of its start. -/
structure Accounts (first : Crew) (filter : Filter) (moves : List Move) : Prop where
  /-- At most one task is not over. -/
  alone : (first.after moves).errands.countP (!·.isOver) ≤ 1
  /-- Each task has the window of the filter that was in force, and asked for, when
  it was begun. -/
  begun : ∀ task e, (first.after moves).errands[task]? = some e →
    ∃ before m rest, moves = before ++ m :: rest ∧
      (first.after before).Begins (Loop.wanted filter (common before)) m task e.window
  /-- The batches that have come, in the order in which their tasks were begun, are
  those that were applied, those in the queue and the one that waits for room. -/
  batches : (first.after moves).errands.filterMap Errand.events? =
    first.applied moves ++ (first.after moves).course.loop.batches ++
      (first.after moves).errands.filterMap Errand.delivering?
  /-- The client has been given the batches applied and no others. -/
  client : ∃ operations, (first.after moves).course.loop.client =
      first.course.loop.client.after operations ∧
    operations.filterMap Client.Operation.batch? = first.applied moves

end Crew

end AttackMap
