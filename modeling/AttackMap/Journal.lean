import AttackMap.Client
import AttackMap.Text.Quoted

/-!
# The journal

A surface without a screen: what would be drawn is written down. A line is
written when the verdict or the mode differs from the last one written, and
one line for every frame, which sums the frame up whenever the period is
over.
-/

namespace AttackMap

/-- A line of the journal. -/
inductive Entry where
  | live (state : LiveState) (stream : StreamState)
  | mode (mode : StreamMode) (reason : Option String)
  | summary (arcs pulses markers heat stored : Nat) (headline : Option Headline)
  | frame (primitives : Nat)
  deriving DecidableEq

namespace Entry

/-- A double in a line. -/
def float (x : Float) : String :=
  match Binary64.parts x with
  | .notANumber => "NaN"
  | .infinite negative => if negative then "-inf" else "inf"
  | .finite negative m e =>
    String.ofList ((Numeral.ofScientific negative (Decimal.shortest m e)).text .bare)

/-- An optional text in a line. -/
def reason : Option String → String
  | none => "None"
  | some s => "Some(" ++ Text.quoted s ++ ")"

/-- The text of a line. -/
def text : Entry → String
  | .live state stream => "INFO live state state=" ++ state.label ++ " stream=" ++ stream.label
  | .mode m why =>
    "INFO stream mode mode=" ++ m.label ++ " reason=" ++ reason why
      ++ " raw_events=" ++ (if m.carriesEvents then "true" else "false")
  | .summary arcs pulses markers heat stored headline =>
    "DEBUG frame summary arcs=" ++ toString arcs ++ " pulses=" ++ toString pulses
      ++ " markers=" ++ toString markers ++ " heat=" ++ toString heat
      ++ " stored=" ++ toString stored
      ++ headline.elim "" fun h =>
        " window_count=" ++ toString h.count.toNat ++ " eps=" ++ float h.eventsPerSecond
  | .frame primitives => "TRACE frame rendered primitives=" ++ toString primitives

end Entry

/-- What the journal remembers. -/
structure Journal where
  /-- Frames from one summary to the next. -/
  period : Tally
  frames : Tally
  live : Option LiveState
  mode : Option StreamMode
  deriving DecidableEq

namespace Journal

/-- An empty journal with a summary every `period` frames; 0 counts as 1. -/
def start (period : UInt64) : Journal := ⟨max period 1, 0, none, none⟩

/-- Write a frame down. -/
def write {α : Type} (j : Journal) (frame : Frame α) (view : View) : Journal × List Entry :=
  let frames := j.frames.next
  let live := if j.live = some view.live then [] else [.live view.live view.stream]
  let mode := if j.mode = some view.mode then [] else [.mode view.mode view.reason]
  let last : Entry :=
    if frames % j.period = 0 then
      .summary frame.arcs.length frame.pulses.length frame.markers.length frame.heat.length
        view.stored view.headline
    else .frame frame.size
  (⟨j.period, frames, some view.live, some view.mode⟩, live ++ mode ++ [last])

end Journal

end AttackMap
