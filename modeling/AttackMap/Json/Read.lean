import AttackMap.Json.Basic
import AttackMap.Json.Complaint
import AttackMap.Saturating

/-!
# Reading values out of trees

A reader takes a tree to a value or to its first complaint. The readers
here are those of single values: words, doubles, texts, options, lists,
pairs and names chosen from a list. Records are in `Json.Record`.

A value may be read straight from the text, from a message held back until
its tag was known, or from a tree held as a value. The three agree but for
one form: a name may also be written as an object with that one key, and
what may stand under the key, and when the key is looked at, depends on
where the object comes from.
-/

namespace AttackMap.Json

/-- Where a tree comes from when it is read. -/
inductive Stage where
  /-- Straight from the text. -/
  | text
  /-- From a tagged message, held back until the tag is known. -/
  | buffer
  /-- From a tree held as a value. -/
  | tree
  deriving DecidableEq, Repr

/-- A way to read a tree. -/
abbrev Reader (α : Type) := Stage → Json → Except Complaint α

namespace Reader

/-- A whole number between two bounds. -/
def whole (low high : Int) : Reader Int := fun _ j =>
  match j with
  | .number n =>
    match n.toInt? with
    | some i => if low ≤ i ∧ i ≤ high then .ok i else .error .refused
    | none => .error .refused
  | _ => .error .refused

def uint8 : Reader UInt8 := fun s j => (fun i => UInt8.ofNat i.toNat) <$> whole 0 0xff s j

def uint64 : Reader UInt64 := fun s j =>
  (fun i => UInt64.ofNat i.toNat) <$> whole 0 Tally.greatest s j

def int32 : Reader Int32 := fun s j =>
  Int32.ofInt <$> whole Int32.minValue.toInt Int32.maxValue.toInt s j

def int64 : Reader Int64 := fun s j => Int64.ofInt <$> whole Millis.least Millis.greatest s j

/-- A double; whole numbers count. -/
def float : Reader Float := fun _ j =>
  match j with
  | .number n => n.toFloat?.elim (.error .refused) .ok
  | _ => .error .refused

def bool : Reader Bool := fun _ j =>
  match j with
  | .bool b => .ok b
  | _ => .error .refused

def string : Reader String := fun _ j =>
  match j with
  | .string s => .ok s
  | _ => .error .refused

/-- A text in a form of its own. -/
def parsed {α : Type} (parse : String → Option α) : Reader α := fun _ j =>
  match j with
  | .string s => (parse s).elim (.error .refused) .ok
  | _ => .error .refused

/-- `null`, or a value. -/
def optional {α : Type} (r : Reader α) : Reader (Option α) := fun s j =>
  match j with
  | .null => .ok none
  | j => some <$> r s j

/-- An array, each item by the same reader. -/
def list {α : Type} (r : Reader α) : Reader (List α) := fun s j =>
  match j with
  | .array items => items.mapM (r s)
  | _ => .error .refused

/-- An array of exactly two. -/
def pair {α β : Type} (r : Reader α) (q : Reader β) : Reader (α × β) := fun s j =>
  match j with
  | .array (a :: rest) => do
    let x ← r s a
    match rest with
    | [b] => return (x, ← q s b)
    | b :: _ :: _ => let _ ← q s b; .error .refused
    | [] => .error .refused
  | _ => .error .refused

/-- The value a name stands for. -/
def named {α : Type} (options : List (String × α)) (name : String) : Except Complaint α :=
  match options.lookup name with
  | some a => .ok a
  | none => .error (.unknown name (options.map (·.1)))

/-- What may stand under the key of a name written as an object. -/
def isUnit (s : Stage) (j : Json) : Bool :=
  match s, j with
  | _, .null => true
  | .buffer, .object [] => true
  | _, _ => false

/-- One of several names: a string, or an object with the name as its only
key. Straight from the text the key is looked at as soon as it is met. -/
def choice {α : Type} (options : List (String × α)) : Reader α := fun s j =>
  match j with
  | .string name => named options name
  | .object (("", .flaw) :: _) => .error .refused
  | .object [(name, j)] => do
    let a ← named options name
    if isUnit s j then .ok a else .error .refused
  | .object ((name, _) :: _ :: _) =>
    match s with
    | .text => do let _ ← named options name; .error .refused
    | _ => .error .refused
  | _ => .error .refused

end Reader

end AttackMap.Json
