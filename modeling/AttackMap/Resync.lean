import AttackMap.Message
import AttackMap.Text.Blank
import AttackMap.Url.Reader

/-!
# Resync

What was missed on the stream is asked for again: the newest events of a
window, in one request. The answer is held as a value before it is looked
at. Of an answer that can be held, the events that do not read or are not
valid are left out, and the others keep their order; one that cannot is no
answer. The store goes by identity, so an event that is asked for twice is
not held twice.
-/

namespace AttackMap

open Json

namespace Resync

/-- How many events are asked for. -/
def pageSize : Nat := 200

/-- What is asked of the server for a window. -/
def request (apiUrl : String) (window : Window) : Except Url.Refusal Url := do
  let u ← Url.read (Text.dropTrailingSlashes apiUrl ++ "/threatmap/points")
  return u.addPairs [("window", window.name), ("size", toString pageSize)]

/-- Why a resync brings nothing. -/
inductive Refusal where
  /-- No answer, or one that is no list. -/
  | unreadable
  /-- An answer that says it is none. -/
  | status (code : Nat)
  deriving DecidableEq, Repr

/-- The text of a refusal that has one. -/
def Refusal.message? : Refusal → Option String
  | .unreadable => none
  | .status code => some ("resync returned " ++ toString code)

/-- The valid event that a tree holds, if it holds one. -/
def point? (j : Json) : Option Event :=
  match Event.record.read .tree j with
  | .ok e => if e.isValid then some e else none
  | .error _ => none

/-- What an answer carries. One that says it has no content carries nothing,
whatever follows it. -/
def content (status : Nat) (body : String) : String := if status = 204 then "" else body

/-- The events of an answer. -/
def points (status : Nat) (body : String) : Except Refusal (List Event) :=
  if status < 200 ∨ 300 ≤ status then .error (.status status)
  else match (Document.read (content status body).toList).held with
    | .ok (.array items) => .ok (items.filterMap point?)
    | _ => .error .unreadable

end Resync

end AttackMap
