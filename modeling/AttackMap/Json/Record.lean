import AttackMap.Json.Read

/-!
# Records

A record is declared field by field and read in either of its two forms:

- an object, its keys in any order, other keys skipped. A field that stands
  twice is a complaint at its second key; a field that is absent and has no
  default is one at the end of the object;
- an array of the fields in the order of declaration, of which those at the
  end may be left out if they have a default.

Each field looks for its own members, so the order of the members decides
between complaints and nothing else. That is what `Checked` is for: a
record is put together from its fields by `<*>`, and the first complaint of
the text survives.

What an object holds under other keys must be well-formed text, and that is
all that is asked of it.
-/

namespace AttackMap.Json

/-- How to read a record: the names of its fields in the order of
declaration, how to read them from the members of an object, and how to
read them from the items of an array from some index on. -/
structure Record (α : Type) where
  fields : List String
  ofMembers : Stage → List (String × Json) → Checked α
  ofItems : Stage → Nat → List Json → Checked α

namespace Record

instance : Applicative Record where
  pure a := ⟨[], fun _ _ => .good a, fun _ _ _ => .good a⟩
  seq f x :=
    let x := x ()
    { fields := f.fields ++ x.fields
      ofMembers := fun s ms => (f.ofMembers s ms).seq (x.ofMembers s ms)
      ofItems := fun s i js => (f.ofItems s i js).seq (x.ofItems s (i + f.fields.length) js) }

/-- The members with a key, each with its position. -/
def located (key : String) (members : List (String × Json)) : List (Nat × Json) :=
  members.zipIdx.filterMap fun ((k, j), i) => if k = key then some (i, j) else none

/-- One field. `absent` is its value when an object lacks it and `omitted`
its value when an array ends before it. -/
def field {α : Type} (name : String) (r : Reader α) (absent omitted : Option α) : Record α where
  fields := [name]
  ofMembers s ms :=
    match located name ms with
    | [] => absent.elim (.bad ms.length (.missing name)) .good
    | [(i, j)] => .ofExcept i (r s j)
    | (i, j) :: (k, _) :: _ =>
      match r s j with
      | .ok _ => .bad k (.duplicate name)
      | .error c => .bad i c
  ofItems s i js :=
    match js[i]? with
    | some j => .ofExcept i (r s j)
    | none => omitted.elim (.bad js.length .refused) .good

/-- A field that must be there. -/
def required {α : Type} (name : String) (r : Reader α) : Record α := field name r none none

/-- A field that may be left out. -/
def defaulted {α : Type} (name : String) (r : Reader α) (d : α) : Record α :=
  field name r (some d) (some d)

/-- A field that is `null` or a value, and may be left out. -/
def nullable {α : Type} (name : String) (r : Reader α) : Record (Option α) :=
  defaulted name r.optional none

/-- A field that is `null` or a value, and may be left out of an object but
not of an array. -/
def present {α : Type} (name : String) (r : Reader α) : Record (Option α) :=
  field name r.optional (some none) none

/-- The first member that is not declared and not well-formed. -/
def strangers (fields : List String) (members : List (String × Json)) : Checked Unit :=
  match members.zipIdx.find? fun ((k, j), _) => !fields.contains k && !j.sound with
  | some (_, i) => .bad i .refused
  | none => .good ()

/-- An array may not be longer than the record. -/
def surplus (fields : List String) (items : List Json) : Checked Unit :=
  if fields.length < items.length then .bad fields.length .refused else .good ()

/-- Read a record in either form. -/
def read {α : Type} (record : Record α) : Reader α := fun s j =>
  match j with
  | .object members =>
    (((strangers record.fields members).map fun _ a => a).seq (record.ofMembers s members)).toExcept
  | .array items =>
    (((surplus record.fields items).map fun _ a => a).seq (record.ofItems s 0 items)).toExcept
  | _ => .error .refused

end Record

end AttackMap.Json
