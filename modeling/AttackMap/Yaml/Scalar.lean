import AttackMap.Text.Digits
import AttackMap.Yaml.Cursor

/-!
# Scalars

The ways to write a text: plain, in one of two quotes, or as a block of
lines that are kept or folded. A scalar knows how it was written, for only
some ways can write numbers, truth values or nothing.
-/

namespace AttackMap.Yaml

/-- A way to write a text. -/
inductive Style where
  | plain | quoted | literal | folded
  deriving DecidableEq, Repr

/-- A text and how it was written. -/
structure Scalar where
  style : Style
  text : String
  deriving DecidableEq, Repr

namespace Scalar

/-! ## Plain -/

/-- Whether a character ends an item inside brackets. -/
def isFlowMark (c : Char) : Bool :=
  c == ',' || c == '[' || c == ']' || c == '\x7b' || c == '\x7d'

/-- How the next character continues a plain text. -/
inductive Step where
  | goes
  | ends
  | refused

/-- Whether a plain text goes on with the next character. -/
def step (flow : Bool) (cs : List Char) : Step :=
  match cs with
  | [] => .ends
  | c :: r =>
    if Cursor.isOver cs then .ends
    else if flow && c == ':' && r.head?.any fun x => isFlowMark x || x == '?' then .refused
    else if (c == ':' && Cursor.isOver r) || (flow && isFlowMark c) then .ends
    else .goes

/-- The run of a plain text up to a blank or its end. -/
def plainRun (flow : Bool) : Nat → Cursor → List Char → Option (Cursor × List Char)
  | 0, c, run => some (c, run.reverse)
  | fuel + 1, c, run =>
    match step flow c.rest, c.rest with
    | .refused, _ => none
    | .goes, x :: _ => plainRun flow fuel c.skip (x :: run)
    | _, _ => some (c, run.reverse)

/-- A plain text: the text, where it ends, and whether a line break follows
it. -/
def plainText (flow : Bool) (indent : Int) :
    Nat → Cursor → List Char → Gap → Option (List Char × Cursor × Bool)
  | 0, c, text, gap => some (text, c, gap.broken)
  | fuel + 1, c, text, gap => do
    if c.atDocument || c.rest.head? == some '#' then some (text, c, gap.broken)
    else
      let (next, run) ← plainRun flow (c.rest.length + 1) c []
      let (text, gap) := if run.isEmpty then (text, gap) else (text ++ gap.text ++ run, Gap.none)
      if !(next.atSpace || next.atBreak) then some (text, next, gap.broken)
      else
        let (next, gap) ← gap.pass indent (next.rest.length + 1) next
        if !flow && next.column < indent then some (text, next, gap.broken)
        else plainText flow indent fuel next text gap

/-! ## Quoted -/

/-- The character that a letter after a backslash stands for. -/
def escaped? (c : Char) : Option Char :=
  match c with
  | '0' => some '\x00'
  | 'a' => some '\x07'
  | 'b' => some '\x08'
  | 't' => some '\t'
  | '\t' => some '\t'
  | 'n' => some '\n'
  | 'v' => some '\x0b'
  | 'f' => some '\x0c'
  | 'r' => some '\r'
  | 'e' => some '\x1b'
  | ' ' => some ' '
  | '"' => some '"'
  | '/' => some '/'
  | '\\' => some '\\'
  | 'N' => some '\u0085'
  | '_' => some '\u00a0'
  | 'L' => some '\u2028'
  | 'P' => some '\u2029'
  | _ => none

/-- How many digits follow a letter after a backslash. -/
def escapeWidth? (c : Char) : Option Nat :=
  match c with
  | 'x' => some 2
  | 'u' => some 4
  | 'U' => some 8
  | _ => none

/-- The character that so many hexadecimal digits name. -/
def hexChar? (width : Nat) (cs : List Char) : Option Char := do
  let ds := cs.take width
  let n ← Text.number? 16 ds
  if h : n.isValidChar then
    if ds.length = width then some (Char.ofNatAux n h) else none
  else none

/-- The run of a quoted text up to a blank, a break or the closing quote;
the flag says that an escaped line break ended it. -/
def quotedRun (double : Bool) : Nat → Cursor → List Char → Option (Cursor × List Char × Bool)
  | 0, _, _ => none
  | fuel + 1, c, run =>
    if c.atOver then some (c, run.reverse, false)
    else match double, c.rest with
      | false, '\'' :: '\'' :: _ => quotedRun double fuel (c.skips 2) ('\'' :: run)
      | false, '\'' :: _ => some (c, run.reverse, false)
      | true, '"' :: _ => some (c, run.reverse, false)
      | true, '\\' :: x :: r =>
        match c.skip.skipBreak with
        | some (_, next) => some (next, run.reverse, true)
        | none =>
          match escapeWidth? x with
          | some width => do
            let y ← hexChar? width r
            quotedRun double fuel (c.skips (2 + width)) (y :: run)
          | none => do
            let y ← escaped? x
            quotedRun double fuel (c.skips 2) (y :: run)
      | _, x :: _ => quotedRun double fuel c.skip (x :: run)
      | _, [] => none

/-- A quoted text after its opening quote, and the place after the closing
one. -/
def quotedText (double : Bool) : Nat → Cursor → List Char → Option (List Char × Cursor)
  | 0, _, _ => none
  | fuel + 1, c, text => do
    if c.atDocument || c.rest.isEmpty then none
    else
      let (next, run, escaped) ← quotedRun double (c.rest.length + 1) c []
      let text := text ++ run
      if !escaped && next.rest.head? == some (if double then '"' else '\'') then
        some (text, next.skip)
      else
        let gap : Gap := if escaped then { Gap.none with broken := true } else Gap.none
        let (next, gap) ← gap.pass 0 (next.rest.length + 1) next
        quotedText double fuel next (text ++ gap.text)

/-! ## Blocks -/

/-- What becomes of the line breaks at the end of a block. -/
inductive Chomp where
  | strip | clip | keep

/-- What stands after the mark of a block: its chomping and its own
indentation. -/
def blockHead? (cs : List Char) : Option (Chomp × Option Nat × Nat) :=
  let chomp? (c : Char) : Option Chomp :=
    if c = '+' then some .keep else if c = '-' then some .strip else none
  match cs with
  | [] => some (.clip, none, 0)
  | a :: r =>
    match chomp? a with
    | some chomp =>
      match r.head?.bind Text.decimalDigit? with
      | some 0 => none
      | some d => some (chomp, some d, 2)
      | none => some (chomp, none, 1)
    | none =>
      match Text.decimalDigit? a with
      | some 0 => none
      | some d =>
        match r.head?.bind chomp? with
        | some chomp => some (chomp, some d, 2)
        | none => some (.clip, some d, 1)
      | none => some (.clip, none, 0)

/-- Pass the empty lines before a line of a block and its indentation. With
no indentation known yet, the widest of them is found. -/
def blockBreaks (indent : Option Nat) :
    Nat → Cursor → List Char → Nat → Option (Cursor × List Char × Nat)
  | 0, _, _, _ => none
  | fuel + 1, c, breaks, widest =>
    let room := match indent with
      | some n => n - c.column
      | none => c.rest.length
    let c := c.skips ((c.rest.takeWhile (· == ' ')).take room).length
    let widest := max widest c.column
    if indent.all (c.column < ·) && c.rest.head? == some '\t' then none
    else match c.skipBreak with
      | some (x, next) => blockBreaks indent fuel next (breaks ++ [x]) widest
      | none => some (c, breaks, widest)

/-- The lines of a block, the part already read in `text`. `pending` is the
last line break and `breaks` the empty lines after it. -/
def blockLines (literal : Bool) (chomp : Chomp) (indent : Nat) :
    Nat → Cursor → List Char → Option Char → List Char → Bool → Option (List Char × Cursor)
  | 0, _, _, _, _, _ => none
  | fuel + 1, c, text, pending, breaks, indented => do
    if c.column = indent && !c.rest.isEmpty then
      let blank := c.atSpace
      let folds := !literal && pending == some '\n' && !indented && !blank
      let joint := if folds then (if breaks.isEmpty then [' '] else []) else pending.toList
      let line := c.rest.takeWhile (!Cursor.isBreak ·)
      let next := c.skips line.length
      let text := text ++ joint ++ breaks ++ line
      let (pending, next) := match next.skipBreak with
        | some (x, next) => (some x, next)
        | none => (none, next)
      let (next, breaks, _) ← blockBreaks (some indent) (next.rest.length + 1) next [] 0
      blockLines literal chomp indent fuel next text pending breaks blank
    else
      some (match chomp with
        | .strip => text
        | .clip => text ++ pending.toList
        | .keep => text ++ pending.toList ++ breaks, c)

/-- A block after its mark, inside a collection of indentation `outer`. -/
def blockText (literal : Bool) (outer : Int) (c : Cursor) : Option (List Char × Cursor) := do
  let (chomp, own, width) ← blockHead? c.rest
  let c := c.skips width
  let c := c.skips (c.rest.takeWhile Cursor.isSpace).length
  let c := if c.rest.head? == some '#' then c.skipLine else c
  let c ← match c.skipBreak with
    | some (_, next) => some next
    | none => if c.rest.isEmpty then some c else none
  let fuel := c.rest.length + 2
  let known := own.map fun n => (if 0 ≤ outer then outer + n else n).toNat
  let (c, breaks, widest) ← blockBreaks known fuel c [] 0
  let indent := known.getD (max widest (max (outer + 1).toNat 1))
  blockLines literal chomp indent fuel c [] none breaks false

end Scalar

end AttackMap.Yaml
