import AttackMap.Json.Tagged

/-!
# Held trees

A tree may be read after it has been held for a while: in a tagged message
until the tag was known, or as a value. What is held as a value has lost
its repeated keys, so a tree without any is held as it is
(`settled_of_distinct`).

Readers hardly ever ask where a tree comes from. Those that never do are
`Steady`; a record of steady fields is steady too, and where one field of a
record is not, the record still reads alike from both kinds of held trees
if that field does (`Record.Alike`).
-/

namespace AttackMap.Json

/-! ## Repeated keys -/

mutual

/-- A tree that repeats no key is held as it is. -/
theorem settled_of_distinct : ∀ j : Json, j.distinct = true → j.settled = j
  | .array items, h => by
    rw [distinct] at h
    rw [settled, settledItems_of_distinct items h]
  | .object members, h => by
    rw [distinct] at h
    rw [settled, settledMembers_of_distinct members h]
  | .null, _ | .bool _, _ | .number _, _ | .string _, _ | .unpaired, _ | .flaw, _ => rfl

theorem settledItems_of_distinct :
    ∀ items : List Json, distinctItems items = true → settledItems items = items
  | [], _ => rfl
  | j :: r, h => by
    rw [distinctItems, Bool.and_eq_true] at h
    rw [settledItems, settled_of_distinct j h.1, settledItems_of_distinct r h.2]

theorem settledMembers_of_distinct :
    ∀ members : List (String × Json),
      distinctMembers members = true → settledMembers members = members
  | [], _ => rfl
  | (k, j) :: r, h => by
    simp only [distinctMembers, Bool.and_eq_true, Bool.not_eq_true'] at h
    rw [settledMembers, h.1.1, if_neg Bool.false_ne_true, settled_of_distinct j h.1.2,
      settledMembers_of_distinct r h.2]

end

/-! ## Levels -/

theorem depthItems_le_iff {items : List Json} {n : Nat} :
    depthItems items ≤ n ↔ ∀ j ∈ items, j.depth ≤ n := by
  induction items with
  | nil => simp [depthItems]
  | cons j r ih => rw [depthItems, Nat.max_le, ih, List.forall_mem_cons]

/-- An array can be held as a value if each item can be held one level down. -/
theorem array_held_iff {items : List Json} :
    (Json.array items).storable = true ∧ (Json.array items).depth ≤ nestingLimit ↔
      ∀ j ∈ items, holdable j = true := by
  have below : (Json.array items).depth ≤ nestingLimit ↔ ∀ j ∈ items, j.depth < nestingLimit := by
    have limit : nestingLimit = 126 + 1 := rfl
    simp only [depth, limit, Nat.add_le_add_iff_right, depthItems_le_iff, Nat.lt_succ_iff]
  simp only [below, storable, storableItems_eq_all, List.all_eq_true, holdable, Bool.and_eq_true,
    decide_eq_true_eq, forall_and]

theorem depthMembers_le_iff {members : List (String × Json)} {n : Nat} :
    depthMembers members ≤ n ↔ ∀ m ∈ members, m.2.depth ≤ n := by
  induction members with
  | nil => simp [depthMembers]
  | cons m r ih => rw [depthMembers, Nat.max_le, ih, List.forall_mem_cons]

theorem storableMembers_eq_all (members : List (String × Json)) :
    storableMembers members = members.all (·.2.storable) := by
  induction members with
  | nil => rfl
  | cons m r ih => rw [storableMembers, List.all_cons, ih]

/-- An object can be held as a value if each member can be held one level down. -/
theorem object_held_iff {members : List (String × Json)} :
    (Json.object members).storable = true ∧ (Json.object members).depth ≤ nestingLimit ↔
      ∀ m ∈ members, holdable m.2 = true := by
  have below : (Json.object members).depth ≤ nestingLimit ↔
      ∀ m ∈ members, m.2.depth < nestingLimit := by
    have limit : nestingLimit = 126 + 1 := rfl
    simp only [depth, limit, Nat.add_le_add_iff_right, depthMembers_le_iff, Nat.lt_succ_iff]
  simp only [below, storable, storableMembers_eq_all, List.all_eq_true, holdable, Bool.and_eq_true,
    decide_eq_true_eq, forall_and]

/-! ## Stages -/

section Stages

variable {s t : Stage}

/-- A reader that does not ask where a tree comes from. -/
def Reader.Steady {α : Type} (r : Reader α) : Prop := ∀ s t j, r s j = r t j

namespace Reader

variable {α : Type}

theorem steady_uint8 : Steady uint8 := fun _ _ _ => rfl
theorem steady_uint64 : Steady uint64 := fun _ _ _ => rfl
theorem steady_int64 : Steady int64 := fun _ _ _ => rfl
theorem steady_float : Steady float := fun _ _ _ => rfl
theorem steady_bool : Steady bool := fun _ _ _ => rfl
theorem steady_string : Steady string := fun _ _ _ => rfl
theorem steady_parsed (parse : String → Option α) : Steady (parsed parse) := fun _ _ _ => rfl

theorem Steady.optional {r : Reader α} (h : r.Steady) : Steady r.optional := by
  intro s t j
  cases j with
  | null => rfl
  | _ => exact congrArg (some <$> ·) (h s t _)

theorem Steady.list {r : Reader α} (h : r.Steady) : Steady r.list := by
  intro s t j
  have same : r s = r t := funext fun j => h s t j
  cases j with
  | array items => rw [Reader.list, Reader.list, same]
  | _ => rfl

/-- A name is read alike from both kinds of held trees, unless it is written
as an object with one key. -/
theorem choice_alike (options : List (String × α)) {j : Json} (h : ∀ m, j ≠ .object [m]) :
    choice options .buffer j = choice options .tree j := by
  cases j with
  | object members =>
    cases members with
    | nil => rfl
    | cons m rest =>
      cases rest with
      | nil => exact absurd rfl (h m)
      | cons m' rest =>
        -- with more keys than one the answer is a refusal
        unfold choice
        split
        · rfl
        · rfl
        · next same => cases same
        · rfl
        · rfl
  | _ => rfl

end Reader

/-- What a tree has in the place of one field of a record, the field's name
and its number in the order of declaration being given. -/
def partsAt (name : String) (i : Nat) : Json → List Json
  | .object members => members.filterMap fun (k, j) => if k = name then some j else none
  | .array items => items[i]?.toList
  | _ => []

namespace Record

variable {α β : Type}

/-- A record, its first field the one with number `i`, reads the same in two
stages. -/
def Alike (s t : Stage) (record : Record α) (i : Nat) : Json → Prop
  | .object members => record.ofMembers s members = record.ofMembers t members
  | .array items => record.ofItems s i items = record.ofItems t i items
  | _ => True

theorem Alike.read {record : Record α} {j : Json} (h : record.Alike s t 0 j) :
    record.read s j = record.read t j := by
  cases j with
  | object members =>
    have same : record.ofMembers s members = record.ofMembers t members := h
    rw [Record.read, Record.read, same]
  | array items =>
    have same : record.ofItems s 0 items = record.ofItems t 0 items := h
    rw [Record.read, Record.read, same]
  | _ => rfl

theorem Alike.seq {f : Record (α → β)} {x : Record α} {i : Nat} {j : Json} (hf : f.Alike s t i j)
    (hx : x.Alike s t (i + f.fields.length) j) : (f <*> x).Alike s t i j := by
  cases j with
  | object members =>
    have same : (f.ofMembers s members).seq (x.ofMembers s members) =
        (f.ofMembers t members).seq (x.ofMembers t members) := congr (congrArg Checked.seq hf) hx
    exact same
  | array items =>
    have same : (f.ofItems s i items).seq (x.ofItems s (i + f.fields.length) items) =
        (f.ofItems t i items).seq (x.ofItems t (i + f.fields.length) items) :=
      congr (congrArg Checked.seq hf) hx
    exact same
  | _ => trivial

theorem Alike.map (f : α → β) {x : Record α} {i : Nat} {j : Json} (hx : x.Alike s t i j) :
    (f <$> x).Alike s t i j := by
  have constant : (pure f : Record (α → β)).Alike s t i j := by cases j <;> trivial
  exact constant.seq hx

theorem mem_of_mem_located {key : String} {members : List (String × Json)} {p : Nat × Json}
    (h : p ∈ located key members) : (key, p.2) ∈ members := by
  obtain ⟨⟨⟨k, j⟩, i⟩, mem, found⟩ := List.mem_filterMap.mp h
  simp only [Option.ite_none_right_eq_some, Option.some.injEq] at found
  obtain ⟨rfl, rfl⟩ := found
  exact List.fst_mem_of_mem_zipIdx mem

theorem field_alike {name : String} {r : Reader α} {absent omitted : Option α} {i : Nat} {j : Json}
    (h : ∀ part ∈ partsAt name i j, r s part = r t part) :
    (field name r absent omitted).Alike s t i j := by
  cases j with
  | object members =>
    have same : ∀ p ∈ located name members, r s p.2 = r t p.2 := by
      intro p mem
      refine h p.2 (List.mem_filterMap.mpr ⟨_, mem_of_mem_located mem, ?_⟩)
      exact if_pos rfl
    change (field name r absent omitted).ofMembers s members =
      (field name r absent omitted).ofMembers t members
    simp only [field]
    cases form : located name members with
    | nil => rfl
    | cons p rest =>
      rw [form] at same
      have first := same p List.mem_cons_self
      cases rest with
      | nil => simp only [first]
      | cons q rest => simp only [first]
  | array items =>
    change (field name r absent omitted).ofItems s i items =
      (field name r absent omitted).ofItems t i items
    simp only [field]
    cases form : items[i]? with
    | none => rfl
    | some part =>
      have same := h part (by rw [partsAt, form]; exact List.mem_singleton_self part)
      simp only [same]
  | _ => trivial

theorem steady_field {r : Reader α} (h : r.Steady) {name : String} {absent omitted : Option α}
    {i : Nat} {j : Json} : (field name r absent omitted).Alike s t i j :=
  field_alike fun part _ => h s t part

/-- A record of steady fields is read steadily. -/
theorem steady_read {record : Record α} (h : ∀ s t j, record.Alike s t 0 j) :
    record.read.Steady :=
  fun s t j => (h s t j).read

end Record

end Stages

end AttackMap.Json
