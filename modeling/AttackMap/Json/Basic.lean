import AttackMap.Decimal.Numeral

/-!
# JSON trees

A tree keeps everything that a reader of the text could complain about, in
the order in which it would meet it: members in the order of the text,
repeated keys included, and numbers as numerals.

It also keeps the place where a text stops being JSON. Reading never fails
(`Json.Document.read`); it ends in a `flaw`, a leaf for "from here on the
text is malformed". So a reader that goes through a tree in order makes the
complaint that stands first in the text, whether that is its own or the
malformed text's. A member whose key cannot be read is filed under the
empty key with a flaw for its value.

A string may spell half of a surrogate pair. Such a string is well-formed
text without being the spelling of any character; it is the leaf
`unpaired`.

Three checks grade a tree:

- `sound`: no flaw anywhere, so the text was well-formed;
- `depth`: how deeply arrays and objects nest;
- `storable`: a tree that can be held in memory as a value: sound, every
  number within the doubles, no unpaired string.

`distinct` and `settled` say what becomes of a repeated key when a tree is
held as a mapping: the last one stands.
-/

namespace AttackMap

/-- A JSON text as a tree. -/
inductive Json where
  | null
  | bool (b : Bool)
  | number (n : Numeral)
  | string (s : String)
  | array (items : List Json)
  | object (members : List (String × Json))
  | unpaired
  | flaw
  deriving Inhabited, Repr

namespace Json

/-! ## Grades of a tree -/

mutual

/-- Whether the text was well-formed to the end of this tree. -/
def sound : Json → Bool
  | .flaw => false
  | .array items => soundItems items
  | .object members => soundMembers members
  | _ => true

def soundItems : List Json → Bool
  | [] => true
  | j :: r => j.sound && soundItems r

def soundMembers : List (String × Json) → Bool
  | [] => true
  | (_, j) :: r => j.sound && soundMembers r

end

mutual

/-- How deeply arrays and objects nest. -/
def depth : Json → Nat
  | .array items => depthItems items + 1
  | .object members => depthMembers members + 1
  | _ => 0

def depthItems : List Json → Nat
  | [] => 0
  | j :: r => max j.depth (depthItems r)

def depthMembers : List (String × Json) → Nat
  | [] => 0
  | (_, j) :: r => max j.depth (depthMembers r)

end

mutual

/-- Whether the tree can be held as a value. -/
def storable : Json → Bool
  | .flaw | .unpaired => false
  | .number n => n.toFloat?.isSome
  | .array items => storableItems items
  | .object members => storableMembers members
  | _ => true

def storableItems : List Json → Bool
  | [] => true
  | j :: r => j.storable && storableItems r

def storableMembers : List (String × Json) → Bool
  | [] => true
  | (_, j) :: r => j.storable && storableMembers r

end

/-! ## Repeated keys -/

mutual

/-- No object of the tree repeats a key. -/
def distinct : Json → Bool
  | .array items => distinctItems items
  | .object members => distinctMembers members
  | _ => true

def distinctItems : List Json → Bool
  | [] => true
  | j :: r => j.distinct && distinctItems r

def distinctMembers : List (String × Json) → Bool
  | [] => true
  | (k, j) :: r => !(r.any (·.1 == k)) && j.distinct && distinctMembers r

end

mutual

/-- The tree as a mapping holds it: of members with one key, the last. -/
def settled : Json → Json
  | .array items => .array (settledItems items)
  | .object members => .object (settledMembers members)
  | j => j

def settledItems : List Json → List Json
  | [] => []
  | j :: r => j.settled :: settledItems r

def settledMembers : List (String × Json) → List (String × Json)
  | [] => []
  | (k, j) :: r =>
    if r.any (·.1 == k) then settledMembers r else (k, j.settled) :: settledMembers r

end

/-! ## Leaves -/

/-- A whole number as a tree. -/
def ofInt (i : Int) : Json := .number (.ofInt i)

/-- A natural number as a tree. -/
def ofNat (n : Nat) : Json := .ofInt n

/-- A double as a tree: a numeral with its shortest digits, or `null` for
what no numeral names. -/
def ofFloat (x : Float) : Json := (Numeral.ofFloat? x).elim .null .number

/-- An optional value as a tree: absent is `null`. -/
def ofOption {α : Type} (f : α → Json) : Option α → Json
  | none => .null
  | some a => f a

/-- A list as an array. -/
def ofList {α : Type} (f : α → Json) (xs : List α) : Json := .array (xs.map f)

/-! ## Small laws -/

theorem settledItems_eq_map (items : List Json) : settledItems items = items.map settled := by
  induction items with
  | nil => rfl
  | cons j r ih => simp [settledItems, ih]

theorem storableItems_eq_all (items : List Json) : storableItems items = items.all storable := by
  induction items with
  | nil => rfl
  | cons j r ih => simp [storableItems, ih]

mutual

/-- What can be held as a value came from well-formed text. -/
theorem sound_of_storable : ∀ j : Json, j.storable = true → j.sound = true
  | .flaw, h => by simp [storable] at h
  | .unpaired, _ => rfl
  | .null, _ => rfl
  | .bool _, _ => rfl
  | .number _, _ => rfl
  | .string _, _ => rfl
  | .array items, h => by
    simp only [storable] at h
    simpa only [sound] using soundItems_of_storable items h
  | .object members, h => by
    simp only [storable] at h
    simpa only [sound] using soundMembers_of_storable members h

theorem soundItems_of_storable :
    ∀ items : List Json, storableItems items = true → soundItems items = true
  | [], _ => rfl
  | j :: r, h => by
    simp only [storableItems, Bool.and_eq_true] at h
    simp [soundItems, sound_of_storable j h.1, soundItems_of_storable r h.2]

theorem soundMembers_of_storable :
    ∀ members : List (String × Json), storableMembers members = true → soundMembers members = true
  | [], _ => rfl
  | (_, j) :: r, h => by
    simp only [storableMembers, Bool.and_eq_true] at h
    simp [soundMembers, sound_of_storable j h.1, soundMembers_of_storable r h.2]

end

end Json

end AttackMap
