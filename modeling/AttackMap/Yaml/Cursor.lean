/-!
# Places in a text

A text being read: what is left of it, and where that stands. Line breaks
are those of YAML: line feed, carriage return, the two together, NEL, and
the two separators of Unicode. A break is read as a line feed, except that
the two separators stay what they are.
-/

namespace AttackMap.Yaml

/-- A place in a text. -/
structure Cursor where
  rest : List Char
  line : Nat
  column : Nat
  index : Nat

namespace Cursor

/-- The start of a text. -/
def start (cs : List Char) : Cursor := ⟨cs, 0, 0, 0⟩

/-- Whether a character breaks a line. -/
def isBreak (c : Char) : Bool :=
  c == '\n' || c == '\r' || c == '\u0085' || c == '\u2028' || c == '\u2029'

/-- Whether a character is a blank within a line. -/
def isSpace (c : Char) : Bool := c == ' ' || c == '\t'

/-- Whether a text goes on with a blank or a break, or is over. -/
def isOver : List Char → Bool
  | [] => true
  | c :: _ => isSpace c || isBreak c

def atBreak (c : Cursor) : Bool := c.rest.head?.any isBreak

def atSpace (c : Cursor) : Bool := c.rest.head?.any isSpace

def atOver (c : Cursor) : Bool := isOver c.rest

/-- Pass a character of the line. -/
def skip (c : Cursor) : Cursor := ⟨c.rest.drop 1, c.line, c.column + 1, c.index + 1⟩

/-- Pass so many characters of the line. -/
def skips (c : Cursor) (n : Nat) : Cursor := ⟨c.rest.drop n, c.line, c.column + n, c.index + n⟩

/-- Pass a line break; also the character it is read as. -/
def skipBreak (c : Cursor) : Option (Char × Cursor) :=
  match c.rest with
  | '\r' :: '\n' :: r => some ('\n', ⟨r, c.line + 1, 0, c.index + 2⟩)
  | x :: r =>
    if isBreak x then
      some (if x = '\u2028' ∨ x = '\u2029' then x else '\n', ⟨r, c.line + 1, 0, c.index + 1⟩)
    else none
  | [] => none

/-- Whether a document marker stands at the start of a line. -/
def atMarker (c : Cursor) (mark : Char) : Bool :=
  c.column = 0 && c.rest.take 3 = List.replicate 3 mark && isOver (c.rest.drop 3)

/-- Whether a document begins or ends here. -/
def atDocument (c : Cursor) : Bool := c.atMarker '-' || c.atMarker '.'

/-- Pass the rest of the line. -/
def skipLine (c : Cursor) : Cursor := c.skips (c.rest.takeWhile (!isBreak ·)).length

end Cursor

/-- Blanks and line breaks between two parts of a scalar. -/
structure Gap where
  /-- Blanks before the first break. -/
  spaces : List Char
  broken : Bool
  /-- The first break. -/
  first : Option Char
  /-- The other breaks. -/
  more : List Char

namespace Gap

def none : Gap := ⟨[], false, .none, []⟩

/-- What a gap counts as: blanks stay, one break is a blank, of several the
first does not count. -/
def text (g : Gap) : List Char :=
  if !g.broken then g.spaces
  else match g.first with
    | some '\n' => if g.more.isEmpty then [' '] else g.more
    | some c => c :: g.more
    | .none => g.more

/-- Pass the blanks and breaks of a gap. A tab before column `indent` of a
line is refused. -/
def pass (indent : Int) : Nat → Cursor → Gap → Option (Cursor × Gap)
  | 0, c, g => some (c, g)
  | fuel + 1, c, g =>
    match c.skipBreak with
    | some (x, next) =>
      pass indent fuel next <|
        if g.broken then { g with more := g.more ++ [x] } else ⟨[], true, some x, []⟩
    | .none =>
      match c.rest with
      | x :: _ =>
        if Cursor.isSpace x then
          if g.broken && c.column < indent && x == '\t' then .none
          else
            pass indent fuel c.skip (if g.broken then g else { g with spaces := g.spaces ++ [x] })
        else some (c, g)
      | [] => some (c, g)

end Gap

end AttackMap.Yaml
