import AttackMap.Text.Digits
import AttackMap.Yaml.Cursor

/-!
# Tags and directives

A tag says what kind of thing a node is. It is written in full between
angle brackets, or as a handle with a suffix. What a handle stands for is
said by the directives before the document; two handles stand for something
without being declared, and a tag that is a lone exclamation mark is itself.
-/

namespace AttackMap.Yaml

/-- A tag as it is written. With an empty handle the suffix is all of it. -/
structure Tag where
  handle : String
  suffix : String
  deriving DecidableEq, Repr

/-- What is said before a document. -/
inductive Directive where
  /-- The version of the language. -/
  | version (major minor : Nat)
  /-- What a handle stands for. -/
  | declares (handle expansion : String)
  deriving DecidableEq, Repr

/-- Whether a character may stand in a name or a handle. -/
def isWord (c : Char) : Bool := c.isAlphanum || c == '-' || c == '_'

namespace Tag

/-- Whether a character may stand in a tag; some may only in a full one. -/
def mayStand (full : Bool) (c : Char) : Bool :=
  isWord c
    || [';', '/', '?', ':', '@', '&', '=', '+', '$', '.', '!', '~', '*', '\'', '(', ')'].contains c
    || (full && [',', '[', ']'].contains c)

/-- The bytes of a tag up to a character that may not stand in one, and the
rest. A percent sign stands before the two digits of a byte. -/
def bytes? (full : Bool) : List Char → Option (List UInt8 × List Char)
  | [] => some ([], [])
  | '%' :: a :: b :: r => do
    let n ← Text.number? 16 [a, b]
    let (bs, rest) ← bytes? full r
    return (UInt8.ofNat n :: bs, rest)
  | c :: r =>
    if c = '%' then none
    else if mayStand full c then (bytes? full r).map fun (bs, rest) => (c.toUInt8 :: bs, rest)
    else some ([], c :: r)

/-- The text of a tag up to a character that may not stand in one. -/
def text? (full : Bool) (cs : List Char) : Option (String × List Char) := do
  let (bs, rest) ← bytes? full cs
  return (← String.fromUTF8? ⟨bs.toArray⟩, rest)

/-- The handle at an exclamation mark: up to a second one if there is only a
word between the two. -/
def handleOf (cs : List Char) : List Char × List Char :=
  let word := (cs.drop 1).takeWhile isWord
  match cs.drop (1 + word.length) with
  | '!' :: r => ('!' :: word ++ ['!'], r)
  | _ => (['!'], cs.drop 1)

/-- The tag at an exclamation mark. -/
def read? (cs : List Char) : Option (Tag × List Char) :=
  match cs with
  | '!' :: '<' :: r => do
    match ← text? true r with
    | (text, '>' :: rest) => if text.isEmpty then none else some (⟨"", text⟩, rest)
    | _ => none
  | cs => do
    let (handle, r) := handleOf cs
    let (text, rest) ← text? false r
    if text.isEmpty then
      if handle.length = 1 then some (⟨"", "!"⟩, rest) else none
    else some (⟨String.ofList handle, text⟩, rest)

end Tag

namespace Directive

/-- A number of at most nine digits. -/
def number? (cs : List Char) : Option (Nat × List Char) := do
  let ds := cs.takeWhile Char.isDigit
  if ds.isEmpty ∨ 9 < ds.length then none
  else return (← Text.number? 10 ds, cs.drop ds.length)

/-- The directive on a line, after its percent sign. Only a comment may
follow it. -/
def read? (line : List Char) : Option Directive := do
  let name := line.takeWhile isWord
  let rest := line.drop name.length
  let body := rest.dropWhile Cursor.isSpace
  if !Cursor.isOver rest then none
  let (d, rest) ← match String.ofList name with
    | "YAML" => do
      let (major, r) ← number? body
      if r.head? ≠ some '.' then none
      let (minor, r) ← number? (r.drop 1)
      some (.version major minor, r)
    | "TAG" => do
      let (handle, r) := Tag.handleOf body
      if body.head? ≠ some '!' ∨ r.isEmpty ∨ !Cursor.isOver r then none
      let (text, r) ← Tag.text? true (r.dropWhile Cursor.isSpace)
      if text.isEmpty ∨ !Cursor.isOver r then none
      some (.declares (String.ofList handle) text, r)
    | _ => none
  let rest := rest.dropWhile Cursor.isSpace
  if rest.isEmpty || rest.head? == some '#' then some d else none

/-- The handles that stand for something without being declared. -/
def usualHandles : List (String × String) := [("!", "!"), ("!!", "tag:yaml.org,2002:")]

/-- What the handles of a document stand for. None if a directive stands
twice or is about a version that is not known. -/
def handles? (ds : List Directive) : Option (List (String × String)) := do
  let versions := ds.filterMap fun
    | .version major minor => some (major, minor)
    | .declares .. => none
  let declared := ds.filterMap fun
    | .declares handle expansion => some (handle, expansion)
    | .version .. => none
  if versions.length ≤ 1 ∧ versions.all [(1, 1), (1, 2)].contains
      ∧ (declared.map (·.1)).Nodup then
    some (declared ++ usualHandles)
  else none

end Directive

end AttackMap.Yaml
