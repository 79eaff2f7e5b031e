import AttackMap.Yaml.Scalar
import AttackMap.Yaml.Tag

/-!
# YAML tokens

The marks of a YAML text in order. Indentation becomes marks too: a block
collection begins where the text moves in and ends where it moves out.

Whether a text is the key of a mapping shows only at the colon after it. So
a place where a key could begin is remembered, one for every level of
brackets, and the mark of the key is put in there when the colon comes. A
key without brackets stands on one line and is not too long.
-/

namespace AttackMap.Yaml

/-- A mark of the text. -/
inductive Token where
  | directive (d : Directive)
  | documentStart
  | documentEnd
  | blockSequence
  | blockMapping
  | blockEnd
  | flowSequence
  | flowSequenceEnd
  | flowMapping
  | flowMappingEnd
  /-- A dash before an item. -/
  | item
  /-- A comma. -/
  | separator
  | key
  | value
  | anchor (name : String)
  | alias (name : String)
  | tag (t : Tag)
  | scalar (s : Scalar)
  deriving DecidableEq, Repr

/-- A place where a key may have begun. -/
structure KeyPlace where
  /-- How many tokens stand before it. -/
  position : Nat
  /-- Whether nothing but a key can stand there. -/
  required : Bool
  line : Nat
  column : Nat
  index : Nat

/-- The reader of tokens between two of them. -/
structure Scanner where
  cursor : Cursor
  tokens : Array Token
  /-- How many brackets are open. -/
  flow : Nat
  /-- The column of the innermost block collection; `-1` outside of all. -/
  indent : Int
  /-- The columns of the collections around it. -/
  outer : List Int
  /-- Whether a key may begin here. -/
  keyAllowed : Bool
  /-- Where a key may have begun, for every level, the innermost first. -/
  places : List (Option KeyPlace)

namespace Scanner

/-- The start of a text. -/
def start (cs : List Char) : Scanner := ⟨.start cs, #[], 0, -1, [], true, [none]⟩

/-! ## Tokens and levels -/

def push (s : Scanner) (t : Token) : Scanner := { s with tokens := s.tokens.push t }

/-- A token put in before the one at a position. -/
def insert (s : Scanner) (position : Nat) (t : Token) : Scanner :=
  { s with
    tokens := (s.tokens.extract 0 position).push t ++ s.tokens.extract position s.tokens.size }

/-- Move the cursor over so many characters of the line. -/
def skips (s : Scanner) (n : Nat) : Scanner := { s with cursor := s.cursor.skips n }

/-- Leave the block collections that begin right of a column. -/
def unroll (column : Int) : Nat → Scanner → Scanner
  | 0, s => s
  | fuel + 1, s =>
    if s.flow = 0 ∧ column < s.indent then
      match s.outer with
      | indent :: outer => unroll column fuel { s.push .blockEnd with indent, outer }
      | [] => { s with indent := -1 }
    else s

/-- Leave all collections right of a column. -/
def leave (s : Scanner) (column : Int) : Scanner := s.unroll column (s.outer.length + 1)

/-- Enter a block collection that begins at a column, its mark put in at a
position. -/
def enter (s : Scanner) (column : Nat) (position : Nat) (t : Token) : Scanner :=
  if s.flow = 0 ∧ s.indent < column then
    { s.insert position t with indent := column, outer := s.indent :: s.outer }
  else s

/-! ## Where keys may begin -/

/-- Forget the place of this level; refused if a key had to stand there. -/
def dropPlace (s : Scanner) : Option Scanner :=
  match s.places with
  | some p :: rest => if p.required then none else some { s with places := none :: rest }
  | _ => some s

/-- Remember this place if a key may begin here. -/
def savePlace (s : Scanner) : Option Scanner := do
  if s.keyAllowed then
    let s ← s.dropPlace
    let p : KeyPlace :=
      ⟨s.tokens.size, s.flow = 0 ∧ s.indent = s.cursor.column, s.cursor.line, s.cursor.column,
        s.cursor.index⟩
    some { s with places := some p :: s.places.drop 1 }
  else some s

/-- How long a key may be. -/
def longestKey : Nat := 1024

/-- Forget the places that are too far back to be keys. -/
def dropStale (s : Scanner) : Option Scanner := do
  let places ← s.places.mapM fun place =>
    match place with
    | some p =>
      if p.line < s.cursor.line ∨ p.index + longestKey < s.cursor.index then
        if p.required then none else some none
      else some (some p)
    | none => some none
  return { s with places }

/-! ## Between tokens -/

/-- Pass blanks, comments and line breaks. Outside of brackets a tab is no
indentation, and a new line may begin with a key. -/
def skipBlanks : Nat → Scanner → Scanner
  | 0, s => s
  | fuel + 1, s =>
    let c := s.cursor
    match c.rest with
    | x :: _ =>
      if x = '\uFEFF' ∧ c.column = 0 then skipBlanks fuel { s with cursor := c.skip }
      else if x = ' ' ∨ (x = '\t' ∧ (s.flow ≠ 0 ∨ !s.keyAllowed)) then
        skipBlanks fuel { s with cursor := c.skip }
      else if x = '#' then skipBlanks fuel { s with cursor := c.skipLine }
      else match c.skipBreak with
        | some (_, next) =>
          skipBlanks fuel { s with cursor := next, keyAllowed := s.keyAllowed || s.flow == 0 }
        | none => s
    | [] => s

/-! ## One token -/

/-- A marker or directive, which ends every collection. -/
def document (s : Scanner) (t : Token) (move : Cursor → Cursor) : Option Scanner := do
  let s ← (s.leave (-1)).dropPlace
  return { s.push t with cursor := move s.cursor, keyAllowed := false }

/-- A directive, which fills its line. -/
def directive (s : Scanner) : Option Scanner := do
  let line := (s.cursor.rest.drop 1).takeWhile (!Cursor.isBreak ·)
  s.document (.directive (← Directive.read? line)) Cursor.skipLine

/-- An opening bracket. -/
def opening (s : Scanner) (t : Token) : Option Scanner := do
  let s ← s.savePlace
  return { (s.push t).skips 1 with
    flow := s.flow + 1, places := none :: s.places, keyAllowed := true }

/-- A closing bracket. -/
def closing (s : Scanner) (t : Token) : Option Scanner := do
  let s ← s.dropPlace
  let s := if s.flow = 0 then s else { s with flow := s.flow - 1, places := s.places.drop 1 }
  return { (s.push t).skips 1 with keyAllowed := false }

/-- A comma. -/
def separator (s : Scanner) : Option Scanner := do
  let s ← s.dropPlace
  return { (s.push .separator).skips 1 with keyAllowed := true }

/-- A dash before an item. -/
def item (s : Scanner) : Option Scanner := do
  if s.flow = 0 ∧ !s.keyAllowed then none
  let s ← (s.enter s.cursor.column s.tokens.size .blockSequence).dropPlace
  return { (s.push .item).skips 1 with keyAllowed := true }

/-- A question mark before a key. -/
def key (s : Scanner) : Option Scanner := do
  if s.flow = 0 ∧ !s.keyAllowed then none
  let s ← (s.enter s.cursor.column s.tokens.size .blockMapping).dropPlace
  return { (s.push .key).skips 1 with keyAllowed := s.flow == 0 }

/-- A colon before a value. -/
def value (s : Scanner) : Option Scanner :=
  match s.places with
  | some p :: rest =>
    let s := (s.insert p.position .key).enter p.column p.position .blockMapping
    some { (s.push .value).skips 1 with places := none :: rest, keyAllowed := false }
  | _ =>
    if s.flow = 0 ∧ !s.keyAllowed then none
    else
      let s := s.enter s.cursor.column s.tokens.size .blockMapping
      some { (s.push .value).skips 1 with keyAllowed := s.flow == 0 }

/-- An anchor or an alias. -/
def named (s : Scanner) (make : String → Token) : Option Scanner := do
  let s ← s.savePlace
  let name := (s.cursor.rest.drop 1).takeWhile isWord
  let rest := s.cursor.rest.drop (1 + name.length)
  let ended := Cursor.isOver rest
    || rest.head?.any ['?', ':', ',', ']', '\x7d', '%', '@', '\u0060'].contains
  if name.isEmpty || !ended then none
  else
    let s := (s.push (make (String.ofList name))).skips (1 + name.length)
    some { s with keyAllowed := false }

/-- A tag. -/
def tag (s : Scanner) : Option Scanner := do
  let s ← s.savePlace
  let (t, rest) ← Tag.read? s.cursor.rest
  if !(Cursor.isOver rest || (s.flow != 0 && rest.head? == some ',')) then none
  let width := s.cursor.rest.length - rest.length
  return { (s.push (.tag t)).skips width with keyAllowed := false }

/-- A block of lines. -/
def block (s : Scanner) (literal : Bool) : Option Scanner := do
  let s ← s.dropPlace
  let (text, cursor) ← Scalar.blockText literal s.indent s.cursor.skip
  let style := if literal then Style.literal else .folded
  return { s.push (.scalar ⟨style, String.ofList text⟩) with cursor, keyAllowed := true }

/-- A quoted text. -/
def quoted (s : Scanner) (double : Bool) : Option Scanner := do
  let s ← s.savePlace
  let (text, cursor) ← Scalar.quotedText double (s.cursor.rest.length + 1) s.cursor.skip []
  return { s.push (.scalar ⟨.quoted, String.ofList text⟩) with cursor, keyAllowed := false }

/-- A plain text. -/
def plain (s : Scanner) : Option Scanner := do
  let s ← s.savePlace
  let (text, cursor, broken) ←
    Scalar.plainText (s.flow != 0) (s.indent + 1) (s.cursor.rest.length + 1) s.cursor [] .none
  return { s.push (.scalar ⟨.plain, String.ofList text⟩) with cursor, keyAllowed := broken }

/-- Whether a plain text may begin here. -/
def beginsPlain (flow : Bool) (cs : List Char) : Bool :=
  match cs with
  | [] => false
  | c :: r =>
    let marks := ['-', '?', ':', ',', '[', ']', '\x7b', '\x7d', '#', '&', '*', '!', '|', '>', '\'',
      '"', '%', '@', '\u0060']
    (!Cursor.isOver cs && !marks.contains c)
      || (c == '-' && !r.head?.any Cursor.isSpace)
      || (!flow && (c == '?' || c == ':') && !Cursor.isOver r)

/-- The token at the cursor. -/
def token (s : Scanner) : Option Scanner :=
  let c := s.cursor
  let flow := s.flow != 0
  let bounded := Cursor.isOver (c.rest.drop 1)
  if c.column = 0 ∧ c.rest.head? = some '%' then s.directive
  else if c.atMarker '-' then s.document .documentStart (·.skips 3)
  else if c.atMarker '.' then s.document .documentEnd (·.skips 3)
  else match c.rest.head? with
    | some '[' => s.opening .flowSequence
    | some '\x7b' => s.opening .flowMapping
    | some ']' => s.closing .flowSequenceEnd
    | some '\x7d' => s.closing .flowMappingEnd
    | some ',' => s.separator
    | some x =>
      if x = '-' ∧ bounded then s.item
      else if x = '?' ∧ (flow ∨ bounded) then s.key
      else if x = ':' ∧ (flow ∨ bounded) then s.value
      else if x = '*' then s.named .alias
      else if x = '&' then s.named .anchor
      else if x = '!' then s.tag
      else if x = '|' ∧ !flow then s.block true
      else if x = '>' ∧ !flow then s.block false
      else if x = '\'' then s.quoted false
      else if x = '"' then s.quoted true
      else if beginsPlain flow c.rest then s.plain
      else none
    | none => none

/-- The tokens from here to the end of the text. -/
def run : Nat → Scanner → Option (Array Token)
  | 0, _ => none
  | fuel + 1, s => do
    let s := s.skipBlanks (s.cursor.rest.length + 1)
    let s ← s.dropStale
    let s := s.leave s.cursor.column
    if s.cursor.rest.isEmpty then
      let s ← (s.leave (-1)).dropPlace
      return s.tokens
    else run fuel (← s.token)

end Scanner

/-- Whether a character may stand in a YAML text at all. -/
def isAllowed (c : Char) : Bool :=
  let n := c.toNat
  n == 0x09 || n == 0x0A || n == 0x0D || (0x20 ≤ n && n ≤ 0x7E) || n == 0x85
    || (0xA0 ≤ n && n ≤ 0xFFFD) || 0x10000 ≤ n

/-- The tokens of a text; none if it is no YAML. -/
def tokens? (cs : List Char) : Option (List Token) := do
  let cs := if cs.head? = some '\uFEFF' then cs.drop 1 else cs
  if cs.all isAllowed then
    return (← (Scanner.start cs).run (cs.length + 2)).toList
  else none

end AttackMap.Yaml
