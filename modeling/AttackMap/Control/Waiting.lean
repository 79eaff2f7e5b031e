import AttackMap.Control

/-!
# Waiting for the close

Any number of tasks may wait until the client is closed, the loop among
them. A task looks at the flag and, if that is not set, lies down until it
is woken, and then looks again. Closing sets the flag and rings. A ring
wakes the task that has lain longest; with nobody lying it is kept, once,
for the next that would lie down.

Looking and lying down are two steps, and so are setting the flag and
ringing; whatever others do may come between them (`Stir`). A task may give
up at any time, and if a ring had woken it, the ring is passed on.
-/

namespace AttackMap

/-- Where a task that waits for the close stands. -/
inductive Waiter where
  /-- It looks at the flag next. -/
  | looking
  /-- It saw no flag and lies down next. -/
  | settling
  /-- It lies and waits for a ring. -/
  | lying
  /-- A ring has woken it, and it looks at the flag next. -/
  | woken
  /-- It saw the flag. -/
  | through
  /-- It gave up. -/
  | gone
  deriving DecidableEq, Repr

/-- The tasks that wait, and what they share with those that close. -/
structure WaitingRoom where
  closed : Bool
  /-- Whether a ring is kept. -/
  kept : Bool
  waiters : List Waiter
  /-- The tasks that lie, by their numbers, the longest first. -/
  queue : List Nat
  /-- How many closings have set the flag and not rung yet. -/
  ringing : Nat
  /-- How many closings are over. -/
  rung : Nat
  deriving DecidableEq, Repr

/-- One step of one party. -/
inductive Stir where
  /-- A task begins to wait. -/
  | comes
  /-- A task looks at the flag. -/
  | looks (task : Nat)
  /-- A task lies down, or takes the ring that is kept. -/
  | settles (task : Nat)
  /-- A closing sets the flag. -/
  | flags
  /-- A closing that has set the flag rings and is over. -/
  | rings
  /-- A task gives up. -/
  | leaves (task : Nat)
  deriving DecidableEq, Repr

namespace WaitingRoom

/-- Nobody waits and nobody has closed. -/
def empty : WaitingRoom := ⟨false, false, [], [], 0, 0⟩

/-- A task moves on. -/
def move (w : WaitingRoom) (task : Nat) (next : Waiter) : WaitingRoom :=
  { w with waiters := w.waiters.set task next }

/-- A ring. -/
def ring (w : WaitingRoom) : WaitingRoom :=
  match w.queue with
  | [] => { w with kept := true }
  | task :: rest => { w with queue := rest }.move task .woken

/-- A step. One that its party is in no position for changes nothing. -/
def stir (w : WaitingRoom) : Stir → WaitingRoom
  | .comes => { w with waiters := w.waiters ++ [.looking] }
  | .looks task =>
    match w.waiters[task]? with
    | some .looking | some .woken => w.move task (if w.closed then .through else .settling)
    | _ => w
  | .settles task =>
    match w.waiters[task]? with
    | some .settling =>
      if w.kept then { w with kept := false }.move task .looking
      else { w with queue := w.queue ++ [task] }.move task .lying
    | _ => w
  | .flags => { w with closed := true, ringing := w.ringing + 1 }
  | .rings =>
    if w.ringing = 0 then w
    else { w with ringing := w.ringing - 1, rung := w.rung + 1 }.ring
  | .leaves task =>
    match w.waiters[task]? with
    | some .lying => { w with queue := w.queue.erase task }.move task .gone
    | some .woken => (w.move task .gone).ring
    | some .looking | some .settling => w.move task .gone
    | _ => w

/-- The room after some steps. -/
def after (steps : List Stir) : WaitingRoom := steps.foldl stir empty

/-- Whether a task lies though a closing is over. -/
def Strands (w : WaitingRoom) : Prop := 0 < w.rung ∧ Waiter.lying ∈ w.waiters

end WaitingRoom

end AttackMap
