import AttackMap.Json.Record
import AttackMap.Json.Reader

/-!
# Tagged messages and held trees

A tagged message is an object whose member `type` says which record it is.
The tag may stand anywhere, so the message is held back until its end and
only then read. Two things are complained about on the way: a tag that is
unknown or stands twice, and whatever cannot be held. The array form has
its tag in front.

What is held may nest `nestingLimit` levels deep, counting the outermost.
-/

namespace AttackMap.Json

/-- How many levels of arrays and objects a held tree may have. -/
def nestingLimit : Nat := 127

/-- Whether a tree under one level of nesting can be held. -/
def holdable (j : Json) : Bool := j.storable && j.depth < nestingLimit

/-- Find the tag and hold back the other members. -/
def untag {β : Type} (key : String) (variants : List (String × β)) :
    List (String × Json) → Option β → List (String × Json) →
      Except Complaint (β × List (String × Json))
  | [], none, _ => .error (.missing key)
  | [], some v, held => .ok (v, held.reverse)
  | (k, j) :: r, tag, held =>
    if k = key then
      match tag, j with
      | some _, _ => .error (.duplicate key)
      | none, .string name => do untag key variants r (some (← Reader.named variants name)) held
      | none, _ => .error .refused
    else if holdable j then untag key variants r tag ((k, j) :: held)
    else .error .refused

/-- Read a tagged message from a tree. -/
def readTagged {α : Type} (key : String) (variants : List (String × Record α)) :
    Json → Except Complaint α
  | .object members => do
    let (record, held) ← untag key variants members none []
    record.read .buffer (.object held)
  | .array [] => .error (.missing key)
  | .array (.string name :: items) => do
    let record ← Reader.named variants name
    if items.all holdable then record.read .buffer (.array items) else .error .refused
  | _ => .error .refused

/-- Read a whole text, complaining last about what follows the value. -/
def Document.readBy {α : Type} (d : Document) (r : Json → Except Complaint α) :
    Except Complaint α := do
  let a ← r d.root
  if d.trailing then .error .refused else .ok a

/-- The tree that a whole text holds as a value. -/
def Document.held (d : Document) : Except Complaint Json :=
  if d.root.storable && d.root.depth ≤ nestingLimit && !d.trailing then .ok d.root.settled
  else .error .refused

end AttackMap.Json
