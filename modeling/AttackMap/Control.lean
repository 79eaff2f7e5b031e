import AttackMap.Filter

/-!
# Control

What the user can do to a running client: close it and change the filter.
Any number of handles reach the same control. Closing is for good. A change
of the filter acts on the filter last asked for, whether the client has
taken that over or not, so no change is lost.
-/

namespace AttackMap

/-- What a handle asks for. -/
inductive Call where
  | close
  /-- Change the filter last asked for. -/
  | edit (change : Filter → Filter)

/-- What the handles share. -/
structure Control where
  closed : Bool
  /-- The filter last asked for. -/
  filter : Filter
  /-- Whether the client has yet to take the filter over. -/
  changed : Bool

namespace Control

/-- Nothing asked for. -/
def start (filter : Filter) : Control := ⟨false, filter, false⟩

/-- Do what a handle asks. -/
def call (c : Control) : Call → Control
  | .close => { c with closed := true }
  | .edit change => { c with filter := change c.filter, changed := true }

/-- The client takes the filter over. -/
def taken (c : Control) : Control := { c with changed := false }

end Control

/-- The call that replaces the filter. -/
def Call.setFilter (f : Filter) : Call := .edit fun _ => f

end AttackMap
