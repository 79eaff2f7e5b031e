import AttackMap.Cli
import Std.Time.DateTime.Timestamp

/-!
# The command line

The client without a screen. Its configuration is taken from the
environment; one that is refused is reported with all its causes. After
that every line of the input is a text frame of the stream, each followed
by turns of the loop, and the journal of the frames drawn goes to the
output.
-/

namespace AttackMap.Cli

/-- The files of the machine. -/
def readFile (path : String) : IO (Except FileFault ByteArray) := do
  try
    return .ok (← IO.FS.readBinFile path)
  catch e =>
    return .error <| match e with
      | .noFileOrDirectory .. => .notFound
      | .permissionDenied .. => .denied
      | .inappropriateType .. => .isDirectory
      | _ => .notFound

/-- The time by the clock of the machine. -/
def clock : IO Millis :=
  return .nearest (← Std.Time.Timestamp.now).toMillisecondsSinceUnixEpoch.val

/-- Feed the lines of the input to the loop. -/
partial def feed (input : IO.FS.Stream) (l : Loop) (j : Journal) : IO Unit := do
  let line ← input.getLine
  if line.isEmpty then return
  let (l, j, lines) := step l j (Text.trim line) (← clock)
  for text in lines do
    IO.println text
  feed input l j

end AttackMap.Cli

open AttackMap in
def main : IO UInt32 := do
  let settings ← Config.settings.filterMapM fun name => do
    return (← IO.getEnv name).map fun text => (name, text)
  let path := ((settings.lookup "THREATMAP_FILTERS_FILE").bind Filter.unlessBlank).getD ""
  let file ← Cli.readFile path
  match Config.load ⟨(settings.lookup ·), fun _ => file⟩ with
  | .error refusal =>
    IO.eprint (Cli.report refusal)
    return 1
  | .ok config =>
    let l := Loop.start config.staleAfter config.filter false
    let l := l.happen (.signal (.dialed .connected))
    let (l, j, lines) := Cli.settle 16 l (.start Cli.summaryEvery) (← Cli.clock)
    for text in lines do
      IO.println text
    Cli.feed (← IO.getStdin) l j
    return 0
