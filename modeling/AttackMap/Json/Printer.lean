import AttackMap.Json.Basic

/-!
# Writing JSON

The text of a tree without blanks, members in the order of the tree. A
string is written raw but for the quote, the backslash and the control
characters below U+0020; five of these have a letter of their own and the
others are written as `\u00xx`. DEL and everything beyond ASCII stay raw.

The two leaves that no value has, `unpaired` and `flaw`, are written as
`null`; trees built by this library do not hold them.
-/

namespace AttackMap.Json

/-- How a character stands inside quotes. -/
def escape (c : Char) : List Char :=
  if c = '"' then ['\\', '"']
  else if c = '\\' then ['\\', '\\']
  else if c = '\x08' then ['\\', 'b']
  else if c = '\x0c' then ['\\', 'f']
  else if c = '\n' then ['\\', 'n']
  else if c = '\r' then ['\\', 'r']
  else if c = '\t' then ['\\', 't']
  else if c.toNat < 0x20 then ['\\', 'u'] ++ Text.hexPadded 4 c.toNat
  else [c]

/-- A string in quotes. -/
def quoted (s : String) : List Char := '"' :: s.toList.flatMap escape ++ ['"']

mutual

/-- The text of a tree. -/
def text : Json → List Char
  | .null => ['n', 'u', 'l', 'l']
  | .bool true => ['t', 'r', 'u', 'e']
  | .bool false => ['f', 'a', 'l', 's', 'e']
  | .number n => n.text .signed
  | .string s => quoted s
  | .array items => '[' :: textItems items ++ [']']
  | .object members => '{' :: textMembers members ++ ['}']
  | .unpaired => ['n', 'u', 'l', 'l']
  | .flaw => ['n', 'u', 'l', 'l']

def textItems : List Json → List Char
  | [] => []
  | [j] => j.text
  | j :: r => j.text ++ ',' :: textItems r

def textMembers : List (String × Json) → List Char
  | [] => []
  | [(k, j)] => quoted k ++ ':' :: j.text
  | (k, j) :: r => quoted k ++ ':' :: j.text ++ ',' :: textMembers r

end

end AttackMap.Json
