import AttackMap.Json.Token

/-!
# Reading JSON

A document is read by one pass over its tokens, with the containers that
are still open on a stack. Each token makes one `step`; the pass is
structural on the tokens, so it ends with the text. It always has a tree to
give: where a token does not fit, the open containers are closed around a
flaw.

What stands after the tree is not read; the document only records that
something does.
-/

namespace AttackMap.Json

/-- A container still open, its finished parts in reverse. -/
inductive Container where
  /-- An array, between items or before one. -/
  | items (done : List Json)
  /-- An object, between members or before a key. -/
  | members (done : List (String × Json))
  /-- An object with a key read and its value to come. -/
  | member (done : List (String × Json)) (key : String)

/-- What may come next. -/
inductive Want where
  | value
  /-- A value, or the end of a new array. -/
  | firstItem
  /-- A key, or the end of a new object. -/
  | firstKey
  | key
  | colon
  /-- A comma or the end of the container. -/
  | more
  deriving DecidableEq, Repr

/-- A finished tree put into the containers around it, all of them closed. -/
def enclose (j : Json) : List Container → Json
  | [] => j
  | .items done :: st => enclose (.array (j :: done).reverse) st
  | .members done :: st => enclose (.object done.reverse) st
  | .member done key :: st => enclose (.object ((key, j) :: done).reverse) st

/-- The tree of a text that stops being JSON here. -/
def broken : List Container → Json
  | [] => .flaw
  | .members done :: st => enclose (.object (("", .flaw) :: done).reverse) st
  | st => enclose .flaw st

/-- What one token does. -/
inductive Move where
  | go (st : List Container) (want : Want)
  /-- The tree is complete. -/
  | done (j : Json)
  /-- The token does not fit. -/
  | stuck

/-- A finished tree: the whole document, or the next part of the innermost
open container. -/
def place (j : Json) : List Container → Move
  | [] => .done j
  | .items done :: st => .go (.items (j :: done) :: st) .more
  | .member done key :: st => .go (.members ((key, j) :: done) :: st) .more
  | .members _ :: _ => .stuck

/-- A token where a value may stand. -/
def opening (t : Token) (st : List Container) : Move :=
  match t with
  | .plain j => place j st
  | .string s => place (s.elim .unpaired .string) st
  | .openArray => .go (.items [] :: st) .firstItem
  | .openObject => .go (.members [] :: st) .firstKey
  | _ => .stuck

/-- One token inside the open containers. -/
def step (t : Token) (st : List Container) (want : Want) : Move :=
  match want, t, st with
  | .firstItem, .closeArray, .items done :: st => place (.array done.reverse) st
  | .more, .closeArray, .items done :: st => place (.array done.reverse) st
  | .more, .comma, .items done :: st => .go (.items done :: st) .value
  | .firstKey, .closeObject, .members done :: st => place (.object done.reverse) st
  | .more, .closeObject, .members done :: st => place (.object done.reverse) st
  | .more, .comma, .members done :: st => .go (.members done :: st) .key
  | .firstKey, .string (some k), .members done :: st => .go (.member done k :: st) .colon
  | .key, .string (some k), .members done :: st => .go (.member done k :: st) .colon
  | .colon, .colon, .member done k :: st => .go (.member done k :: st) .value
  | .value, t, st => opening t st
  | .firstItem, t, st => opening t st
  | _, _, _ => .stuck

/-- The tree that the tokens spell inside the open containers, and the
tokens after it. -/
def build : List Token → List Container → Want → Json × List Token
  | [], st, _ => (broken st, [])
  | t :: ts, st, want =>
    match step t st want with
    | .go st' want' => build ts st' want'
    | .done j => (j, ts)
    | .stuck => (broken st, t :: ts)

/-- A text read as JSON: its tree, and whether anything but blanks follows. -/
structure Document where
  root : Json
  trailing : Bool
  deriving Repr

/-- Read a text. -/
def Document.read (cs : List Char) : Document :=
  let (root, rest) := build (tokens cs) [] .value
  ⟨root, !rest.isEmpty⟩

/-- The tree of a text that is JSON from its start to its end. -/
def ofText? (s : String) : Option Json :=
  let d := Document.read s.toList
  if d.root.sound && !d.trailing then some d.root else none

end AttackMap.Json
