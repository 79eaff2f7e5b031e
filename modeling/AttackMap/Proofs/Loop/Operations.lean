import AttackMap.Proofs.Client.Parts
import AttackMap.Proofs.Loop.Order

/-!
# What a loop asks of its client

A loop does nothing to its client but what a client can be asked for: every
deed comes down to an operation or to none (`Deed.operations`). So the client
of a run is the client after the operations of the run (`client_after`), and
what is known of clients is known of loops.
-/

namespace AttackMap

/-- What a deed asks of the client, the malformed frames so far being given. -/
def Deed.operations {α : Type} (now : Millis) (malformed : Tally) :
    Deed α → List Client.Operation
  | .closed => [.status .closed]
  | .heard (.status status) => [.status status]
  | .heard (.message m) => [.message m now]
  | .applied events => [.batch events]
  | .filtered f => [.setFilter f]
  | .reported _ => [.report now malformed]
  | .polled => [.poll now]
  | .drew .. => [.draw now]
  | .idle | .sent _ | .withheld | .asked _ | .skipped _ => []

namespace Loop

variable {l l' : Loop} {hears : Bool} {now : Millis} {deed : Deed Float}

theorem Attends.client (does : Attends l now l' deed) :
    l'.client = l.client.after (deed.operations now l'.session.malformed) := by
  cases does with
  | hears e => cases e <;> rfl
  | _ => rfl

/-- A turn does to the client what its deed asks for. -/
theorem Turns.client (does : Turns hears l now l' deed) :
    l'.client = l.client.after (deed.operations now l'.session.malformed) := by
  cases does with
  | attends _ _ _ does => exact does.client
  | _ => rfl

end Loop

namespace Course

/-- What a move asks of the client. -/
def asks (c : Course) : Move → List Client.Operation
  | .happens _ => []
  | .turns hears now =>
    (c.turn hears now).2.operations now (c.turn hears now).1.session.malformed

/-- What moves ask of the client. -/
def operations (c : Course) : List Move → List Client.Operation
  | [] => []
  | m :: rest => c.asks m ++ (c.move m).1.operations rest

theorem client_move (c : Course) (m : Move) :
    (c.move m).1.loop.client = c.loop.client.after (c.asks m) := by
  cases m with
  | happens h => exact (c.loop.happen_frame h).1
  | turns hears now => exact (Loop.turns_turnAs (hears || c.waiting.isNone) c.loop now).client

/-- **The client of a run** is the client after the operations of the run. -/
theorem client_after (c : Course) (moves : List Move) :
    (c.after moves).loop.client = c.loop.client.after (c.operations moves) := by
  induction moves generalizing c with
  | nil => rfl
  | cons m rest ih =>
    rw [operations, Client.after_append, ← client_move]
    exact ih (c.move m).1

end Course

end AttackMap
