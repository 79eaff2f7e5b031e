/-!
# Complaints

Why a JSON text is refused. Three reasons carry a text of their own; every
other one (malformed text, a value of the wrong type or out of range, an
array of the wrong length) is `refused`.

A reader that finds several things wrong makes the complaint that stands
first in the text. `Checked` is how that is decided: each part of a record
is read by itself, with the position of what it has to complain about, and
putting parts together keeps the complaint with the least position. Of two
at one position the part declared first has it; that is how the first
declared of several missing fields is the one that is named.
-/

namespace AttackMap.Json

/-- A reason to refuse. -/
inductive Complaint where
  | missing (field : String)
  | duplicate (field : String)
  | unknown (name : String) (choices : List String)
  | refused
  deriving DecidableEq, Repr, Inhabited

/-- A name between grave accents. -/
def Complaint.ticked (s : String) : String := "\u0060" ++ s ++ "\u0060"

/-- The text of a complaint that has one. -/
def Complaint.message? : Complaint → Option String
  | .missing f => some ("missing field " ++ ticked f)
  | .duplicate f => some ("duplicate field " ++ ticked f)
  | .unknown name [a, b] =>
    some ("unknown variant " ++ ticked name ++ ", expected " ++ ticked a ++ " or " ++ ticked b)
  | .unknown name choices =>
    some ("unknown variant " ++ ticked name ++ ", expected one of "
      ++ String.intercalate ", " (choices.map ticked))
  | .refused => none

/-- A value, or the first complaint about it and where it stands. -/
inductive Checked (α : Type) where
  | good (a : α)
  | bad (position : Nat) (c : Complaint)
  deriving Repr

namespace Checked

/-- A function and its argument, read separately: the earlier complaint
wins, and at one position the function's. -/
def seq {α β : Type} (f : Checked (α → β)) (x : Checked α) : Checked β :=
  match f, x with
  | .good f, .good a => .good (f a)
  | .good _, .bad p c => .bad p c
  | .bad p c, .good _ => .bad p c
  | .bad p c, .bad q d => if q < p then .bad q d else .bad p c

def map {α β : Type} (f : α → β) : Checked α → Checked β
  | .good a => .good (f a)
  | .bad p c => .bad p c

/-- A value that stands at one position. -/
def ofExcept {α : Type} (position : Nat) : Except Complaint α → Checked α
  | .ok a => .good a
  | .error c => .bad position c

def toExcept {α : Type} : Checked α → Except Complaint α
  | .good a => .ok a
  | .bad _ c => .error c

/-- Parts put together are a value exactly when both parts are. -/
theorem seq_eq_good_iff {α β : Type} {f : Checked (α → β)} {x : Checked α} {b : β} :
    f.seq x = .good b ↔ ∃ g a, f = .good g ∧ x = .good a ∧ g a = b := by
  cases f <;> cases x <;> simp [seq]
  split <;> simp

theorem map_eq_good_iff {α β : Type} {f : α → β} {x : Checked α} {b : β} :
    x.map f = .good b ↔ ∃ a, x = .good a ∧ f a = b := by
  cases x <;> simp [map]

theorem toExcept_eq_ok_iff {α : Type} {x : Checked α} {a : α} :
    x.toExcept = .ok a ↔ x = .good a := by
  cases x <;> simp [toExcept]

end Checked

end AttackMap.Json
