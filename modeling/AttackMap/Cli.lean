import AttackMap.Config
import AttackMap.Journal
import AttackMap.Loop.Basic

/-!
# The command line without its effects

What the program without a screen says: the report of a refused
configuration with all its causes, and the lines of the journal that a
frame of the stream gives.
-/

namespace AttackMap.Cli

/-- A cause under its heading, with a number if there are several. Further
lines are indented like the first. -/
def cause (number : Option Nat) (text : String) : String :=
  let head := match number with
    | some n =>
      let digits := Text.decimal n
      String.ofList (List.replicate (5 - digits.length) ' ' ++ digits) ++ ": "
    | none => "    "
  let margin := if number.isSome then "       " else "    "
  head ++ String.intercalate ("\n" ++ margin) (text.splitOn "\n")

/-- The report of a refused configuration. -/
def report (r : Config.Refusal) : String :=
  let causes := r.causes
  let numbered : List String :=
    if causes.length ≤ 1 then causes.map (cause none)
    else causes.zipIdx.map fun (text, i) => cause (some i) text
  "Error: loading configuration\n\nCaused by:\n" ++ String.intercalate "\n" numbered ++ "\n"

/-- How many frames are drawn from one summary to the next. -/
def summaryEvery : UInt64 := 300

/-- Turns until nothing is pending, and the lines of the journal. -/
def settle : Nat → Loop → Journal → Millis → Loop × Journal × List String
  | 0, l, j, _ => (l, j, [])
  | fuel + 1, l, j, now =>
    match (l.turn now : Loop × Deed Float) with
    | (l, .idle) => (l, j, [])
    | (l, .drew frame view) =>
      let (j, entries) := j.write frame view
      let (l, j, lines) := settle fuel l j now
      (l, j, entries.map Entry.text ++ lines)
    | (l, _) => settle fuel l j now

/-- One frame of the stream, and then a frame of the map. -/
def step (l : Loop) (j : Journal) (text : String) (now : Millis) : Loop × Journal × List String :=
  let l := l.happen (.signal (.incoming (.text text)))
  settle 16 (l.happen (.strikes .frame)) j now

end AttackMap.Cli
