import AttackMap.Saturating

/-!
# Load

How the client is coping: how many frames it draws a second, and how many
events have come since the last one. Frames are counted in windows; a
sample closes the window if any time has passed in it, and the rate
reported is that of the last closed one.
-/

namespace AttackMap

/-- A closed window of measurement. -/
structure FrameWindow where
  frames : Tally
  length : Millis
  deriving DecidableEq, Repr

namespace FrameWindow

/-- Frames a second. -/
def rate (w : FrameWindow) : Float := w.frames.toFloat * 1000.0 / w.length.toFloat

end FrameWindow

/-- What the client reports about itself. -/
structure LoadReport where
  fps : Float
  queued : Tally
  dropped : Tally
  deriving DecidableEq

/-- The counters behind a report. -/
structure Load where
  /-- When the open window began; none before the first frame. -/
  since : Option Millis
  /-- Frames in the open window. -/
  frames : Tally
  /-- The last closed window. -/
  last : Option FrameWindow
  /-- Events since the last frame. -/
  pending : Tally
  deriving DecidableEq, Repr

namespace Load

/-- The rate reported before any window is closed. -/
def nominalRate : Float := 60.0

/-- Nothing measured. -/
def start : Load := ⟨none, 0, none, 0⟩

/-- An event has been stored. -/
def onEvent (l : Load) : Load := { l with pending := l.pending.next }

/-- A frame has been drawn. -/
def onFrame (l : Load) (now : Millis) : Load :=
  { l with
    since := some (l.since.getD now)
    frames := l.frames.next
    pending := 0 }

/-- Close the open window if it has lasted. -/
def close (l : Load) (now : Millis) : Load :=
  match l.since with
  | none => l
  | some since =>
    let length := now.minus since
    if 0 < length then { l with since := some now, frames := 0, last := some ⟨l.frames, length⟩ }
    else l

/-- The report of the counters as they stand. -/
def report (l : Load) (dropped : Tally) : LoadReport :=
  ⟨l.last.elim nominalRate FrameWindow.rate, l.pending, dropped⟩

/-- Close the window and report. -/
def sample (l : Load) (now : Millis) (dropped : Tally) : Load × LoadReport :=
  let l := l.close now
  (l, l.report dropped)

end Load

end AttackMap
