import AttackMap.Proofs.Json.Held

/-!
# Edits that change nothing

A tree can be written in many ways that say the same: the members of an
object in any order, further members that nobody reads, a member left out
that would only have stated its default. Which of these a tree admits
depends on what it stands for, so an edit is made at a `Shape`: only where a
record is declared are there members to add or to leave out (`Edit`).

A reader keeps to a shape if no such edit changes what it takes from a tree
that can be held (`Reader.Keeps`). Readers of single values keep to every
shape, since an edit leaves them alone; those of lists, options and records
keep to a shape if their parts do, and a record's law is put together from
its fields' by the same steps as the record (`Record.Keeps`).
-/

namespace AttackMap.Json

/-! ## Shapes -/

/-- What a tree stands for, as far as records are in it. -/
inductive Shape where
  /-- No record, or nothing that is read. -/
  | leaf
  /-- A list, all its items of one shape. -/
  | list (item : Shape)
  /-- A record: its members in the order of declaration, each with its shape
  and with the tree that says the same as leaving the member out, if one
  does. -/
  | record (slots : List (String × Shape × Option Json))

namespace Shape

/-- A member of a record as it is declared. -/
abbrev Slot := String × Shape × Option Json

/-- The shape of a member of an object. -/
def member : Shape → String → Shape
  | record slots, key => (slots.lookup key).elim leaf Prod.fst
  | _, _ => leaf

/-- The shape of an item of an array. -/
def item : Shape → Nat → Shape
  | record slots, i => slots[i]?.elim leaf (·.2.1)
  | list shape, _ => shape
  | leaf, _ => leaf

end Shape

open Shape (Slot)

/-! ## Edits -/

/-- One edit of a tree of a shape. -/
inductive Edit : Shape → Json → Json → Prop where
  /-- The members of an object are put into another order. -/
  | permute {shape : Shape} {ms ms' : List (String × Json)} (perm : ms.Perm ms') :
    Edit shape (.object ms) (.object ms')
  /-- A member that is not declared is added to a record. -/
  | insert {slots : List Slot} {ms : List (String × Json)} {key : String} {value : Json}
    (undeclared : key ∉ slots.map Prod.fst) (storable : value.storable = true) :
    Edit (.record slots) (.object ms) (.object ((key, value) :: ms))
  /-- A member that a record lacks is added with its default. -/
  | fill {slots : List Slot} {ms : List (String × Json)} {key : String} {shape : Shape}
    {value : Json} (declared : (key, shape, some value) ∈ slots) (lacking : key ∉ ms.map Prod.fst)
    (storable : value.storable = true) :
    Edit (.record slots) (.object ms) (.object ((key, value) :: ms))
  /-- A member that states its default is taken out of a record. -/
  | clear {slots : List Slot} {ms : List (String × Json)} {key : String} {shape : Shape}
    {value : Json} (declared : (key, shape, some value) ∈ slots) (lacking : key ∉ ms.map Prod.fst)
    (storable : value.storable = true) :
    Edit (.record slots) (.object ((key, value) :: ms)) (.object ms)
  /-- The value of a member is edited. -/
  | member {shape : Shape} {before after : List (String × Json)} {key : String} {j j' : Json}
    (inner : Edit (shape.member key) j j') :
    Edit shape (.object (before ++ (key, j) :: after)) (.object (before ++ (key, j') :: after))
  /-- An item is edited. -/
  | item {shape : Shape} {before after : List Json} {j j' : Json}
    (inner : Edit (shape.item before.length) j j') :
    Edit shape (.array (before ++ j :: after)) (.array (before ++ j' :: after))

/-- What can be held can be held after an edit, and what cannot cannot. -/
theorem Edit.storable {shape : Shape} {j j' : Json} (edit : Edit shape j j') :
    j.storable = j'.storable := by
  induction edit with
  | permute perm => simp only [Json.storable, storableMembers_eq_all, perm.all_eq]
  | insert _ storable => simp only [Json.storable, storableMembers, storable, Bool.true_and]
  | fill _ _ storable => simp only [Json.storable, storableMembers, storable, Bool.true_and]
  | clear _ _ storable => simp only [Json.storable, storableMembers, storable, Bool.true_and]
  | member _ ih =>
    simp only [Json.storable, storableMembers_eq_all, List.all_append, List.all_cons, ih]
  | item _ ih =>
    simp only [Json.storable, storableItems_eq_all, List.all_append, List.all_cons, ih]

theorem storable_of_mem_object {ms : List (String × Json)} (h : (Json.object ms).storable = true)
    {m : String × Json} (mem : m ∈ ms) : m.2.storable = true := by
  rw [Json.storable, storableMembers_eq_all] at h
  exact List.all_eq_true.mp h m mem

theorem storable_of_mem_array {items : List Json} (h : (Json.array items).storable = true)
    {j : Json} (mem : j ∈ items) : j.storable = true := by
  rw [Json.storable, storableItems_eq_all] at h
  exact List.all_eq_true.mp h j mem

/-! ## Readers of values -/

namespace Reader

variable {α β : Type}

/-- What a reader takes from a tree that was held back. -/
def taken (r : Reader α) (j : Json) : Option α := (r .buffer j).toOption

/-- No edit at a shape changes what a reader takes. -/
def Keeps (r : Reader α) (shape : Shape) : Prop :=
  ∀ j j' : Json, Edit shape j j' → j.storable = true → r.taken j = r.taken j'

/-- A reader that takes nothing from arrays and objects. -/
def Plain (r : Reader α) : Prop :=
  (∀ ms, r.taken (.object ms) = none) ∧ ∀ items, r.taken (.array items) = none

/-- An edit is made inside an array or an object. -/
theorem Plain.keeps {r : Reader α} (plain : r.Plain) (shape : Shape) : r.Keeps shape := by
  intro j j' edit _
  cases edit with
  | item => rw [plain.2, plain.2]
  | _ => rw [plain.1, plain.1]

theorem plain_uint8 : Plain uint8 := ⟨fun _ => rfl, fun _ => rfl⟩
theorem plain_uint64 : Plain uint64 := ⟨fun _ => rfl, fun _ => rfl⟩
theorem plain_int32 : Plain int32 := ⟨fun _ => rfl, fun _ => rfl⟩
theorem plain_int64 : Plain int64 := ⟨fun _ => rfl, fun _ => rfl⟩
theorem plain_float : Plain float := ⟨fun _ => rfl, fun _ => rfl⟩
theorem plain_bool : Plain bool := ⟨fun _ => rfl, fun _ => rfl⟩
theorem plain_string : Plain string := ⟨fun _ => rfl, fun _ => rfl⟩
theorem plain_parsed (parse : String → Option α) : Plain (parsed parse) :=
  ⟨fun _ => rfl, fun _ => rfl⟩

theorem toOption_map (f : α → β) (x : Except Complaint α) :
    (f <$> x).toOption = x.toOption.map f := by
  cases x <;> rfl

theorem Keeps.optional {r : Reader α} {shape : Shape} (h : r.Keeps shape) :
    Keeps r.optional shape := by
  intro j j' edit held
  have same := h j j' edit held
  have some_map (j : Json) (present : j ≠ .null) : r.optional.taken j = (r.taken j).map some := by
    cases j with
    | null => exact absurd rfl present
    | _ => exact toOption_map some _
  rw [some_map j (by cases edit <;> exact nofun), some_map j' (by cases edit <;> exact nofun), same]

/-- What is taken from a list: what is taken from its items, if something is
from each. -/
theorem taken_list (r : Reader α) (items : List Json) :
    r.list.taken (.array items) = items.mapM r.taken := by
  change (items.mapM (r .buffer)).toOption = items.mapM fun j => (r .buffer j).toOption
  induction items with
  | nil => rfl
  | cons j items ih =>
    rw [List.mapM_cons, List.mapM_cons, ← ih]
    cases r .buffer j with
    | error c => rfl
    | ok a => cases items.mapM (r .buffer) <;> rfl

theorem Keeps.list {r : Reader α} {shape : Shape} (h : ∀ i, r.Keeps (shape.item i)) :
    Keeps r.list shape := by
  intro j j' edit held
  cases edit with
  | @item _ before after j j' inner =>
    have same := h _ j j' inner (storable_of_mem_array held (by simp))
    rw [taken_list, taken_list, List.mapM_append, List.mapM_append, List.mapM_cons,
      List.mapM_cons, same]
  | _ => rfl

/-- What is taken from a pair. -/
theorem taken_pair (r : Reader α) (q : Reader β) (items : List Json) :
    (r.pair q).taken (.array items) =
      match items with
      | [a, b] => (r.taken a).bind fun x => (q.taken b).map (x, ·)
      | _ => none := by
  match items with
  | [] => rfl
  | [a] =>
    simp only [taken, pair]
    cases r .buffer a <;> rfl
  | [a, b] =>
    simp only [taken, pair]
    cases r .buffer a with
    | error c => rfl
    | ok x => cases q .buffer b <;> rfl
  | a :: b :: c :: rest =>
    simp only [taken, pair]
    cases r .buffer a with
    | error c => rfl
    | ok x => cases q .buffer b <;> rfl

theorem Keeps.pair {r : Reader α} {q : Reader β} (hr : r.Keeps .leaf) (hq : q.Keeps .leaf) :
    Keeps (r.pair q) .leaf := by
  intro j j' edit held
  cases edit with
  | @item _ before after j j' inner =>
    have part := storable_of_mem_array held (j := j) (by simp)
    have first : r.taken j = r.taken j' := hr j j' inner part
    have second : q.taken j = q.taken j' := hq j j' inner part
    rw [taken_pair, taken_pair]
    match before, after with
    | [], [] => rfl
    | [], [b] => simp only [List.nil_append, first]
    | [a], [] => simp only [List.singleton_append, second]
    | [], b :: c :: rest => rfl
    | [a], b :: rest => rfl
    | [a, b], rest => rfl
    | a :: b :: c :: before, rest => rfl
  | _ => rfl

/-! ## One of several -/

section FromSole

variable {γ : Type} {absent : Option β} {take : γ → Option β}

/-- What is taken from the only item of a list; without items there is
something to fall back on. -/
def fromSole (absent : Option β) (take : γ → Option β) : List γ → Option β
  | [] => absent
  | [x] => take x
  | _ => none

theorem fromSole_perm {xs ys : List γ} (perm : xs.Perm ys) :
    fromSole absent take xs = fromSole absent take ys := by
  match xs, ys, perm with
  | [], _, perm => rw [perm.nil_eq]
  | [x], _, perm => rw [List.singleton_perm.mp perm]
  | _ :: _ :: _, [], perm => exact absurd perm.length_eq (by simp)
  | _ :: _ :: _, [_], perm => exact absurd perm.length_eq (by simp)
  | _ :: _ :: _, _ :: _ :: _, _ => rfl

theorem fromSole_replace {x y : γ} (same : take x = take y) (before after : List γ) :
    fromSole absent take (before ++ x :: after) = fromSole absent take (before ++ y :: after) := by
  match before, after with
  | [], [] => exact same
  | [], _ :: _ => rfl
  | [_], _ => rfl
  | _ :: _ :: _, _ => rfl

end FromSole

/-- What may stand under a name is not edited: nothing, or an object without
members. -/
theorem isUnit_edit {j j' : Json} (edit : Edit .leaf j j') :
    isUnit .buffer j = isUnit .buffer j' := by
  cases edit with
  | @permute _ ms ms' perm =>
    cases ms with
    | nil => rw [perm.nil_eq]
    | cons m ms =>
      cases ms' with
      | nil => exact absurd perm.length_eq (by simp)
      | cons => rfl
  | @member _ before => cases before <;> rfl
  | item => rfl

/-- What is taken from a name that is written as an object. -/
theorem taken_choice (options : List (String × α)) {ms : List (String × Json)}
    (held : (Json.object ms).storable = true) :
    (choice options).taken (.object ms) =
      fromSole none (fun m => if isUnit .buffer m.2 then options.lookup m.1 else none) ms := by
  match ms with
  | [] => rfl
  | [(name, j)] =>
    have here : j.storable = true := storable_of_mem_object held List.mem_cons_self
    have known : choice options .buffer (.object [(name, j)]) =
        (named options name).bind fun a => if isUnit .buffer j then .ok a else .error .refused := by
      cases j with
      | flaw => cases here
      | _ => simp only [choice]; rfl
    simp only [taken, known, named, fromSole]
    cases options.lookup name <;> cases isUnit .buffer j <;> rfl
  | m :: m' :: rest =>
    simp only [taken, choice]
    split <;> first | rfl | simp_all

theorem keeps_choice (options : List (String × α)) : Keeps (choice options) .leaf := by
  intro j j' edit held
  have held' : j'.storable = true := edit.storable ▸ held
  cases edit with
  | permute perm => rw [taken_choice options held, taken_choice options held', fromSole_perm perm]
  | member inner =>
    rw [taken_choice options held, taken_choice options held']
    exact fromSole_replace (by simp only [isUnit_edit inner]) _ _
  | item => rfl

end Reader

/-! ## Records -/

namespace Checked

variable {α β : Type}

/-- The value, whatever the complaint would be. -/
def value? (x : Checked α) : Option α := x.toExcept.toOption

theorem value?_seq (f : Checked (α → β)) (x : Checked α) :
    (f.seq x).value? = f.value?.bind fun g => x.value?.map g := by
  cases f with
  | good g => cases x <;> rfl
  | bad p c =>
    cases x with
    | good a => rfl
    | bad q d =>
      rw [seq]
      split <;> rfl

theorem value?_ofExcept (position : Nat) (x : Except Complaint α) :
    (ofExcept position x).value? = x.toOption := by
  cases x <;> rfl

end Checked

namespace Record

variable {α β : Type}

/-- What a record, its first field the one with number `i`, takes from a tree
that was held back. -/
def taken (record : Record α) (i : Nat) : Json → Option α
  | .object ms => (record.ofMembers .buffer ms).value?
  | .array items => (record.ofItems .buffer i items).value?
  | _ => none

/-- No edit of a record as it is declared changes what its fields from number
`i` on take. -/
def Keeps (record : Record α) (slots : List Slot) (i : Nat) : Prop :=
  (slots.map Prod.fst).Nodup → ∀ j j' : Json, Edit (.record slots) j j' → j.storable = true →
    record.taken i j = record.taken i j'

theorem taken_seq (f : Record (α → β)) (x : Record α) (i : Nat) (j : Json) :
    (f <*> x).taken i j =
      (f.taken i j).bind fun g => (x.taken (i + f.fields.length) j).map g := by
  cases j with
  | object | array => exact Checked.value?_seq _ _
  | _ => rfl

theorem Keeps.seq {f : Record (α → β)} {x : Record α} {slots : List Slot} {i : Nat}
    (hf : f.Keeps slots i) (hx : x.Keeps slots (i + f.fields.length)) :
    (f <*> x).Keeps slots i := by
  intro nodup j j' edit held
  rw [taken_seq, taken_seq, hf nodup j j' edit held, hx nodup j j' edit held]

theorem Keeps.map (f : α → β) {x : Record α} {slots : List Slot} {i : Nat} (hx : x.Keeps slots i) :
    (f <$> x).Keeps slots i := by
  have constant : (pure f : Record (α → β)).Keeps slots i := by
    intro _ j j' edit _
    cases edit <;> rfl
  exact constant.seq hx

theorem partsAt_object (name : String) (i : Nat) (ms : List (String × Json)) :
    partsAt name i (.object ms) = (located name ms).map Prod.snd := by
  have members : (ms.zipIdx.map Prod.fst).filterMap
      (fun m => if m.1 = name then some m.2 else none) = partsAt name i (.object ms) := by
    rw [List.zipIdx_map_fst]
    rfl
  rw [← members, List.filterMap_map, located, List.map_filterMap]
  congr 1
  funext m
  simp only [Function.comp, apply_ite (Option.map Prod.snd), Option.map_some, Option.map_none]

/-- What a field takes from an object. -/
theorem taken_field_object (name : String) (r : Reader α) (absent omitted : Option α) (i : Nat)
    (ms : List (String × Json)) : (field name r absent omitted).taken i (.object ms) =
      Reader.fromSole absent r.taken (partsAt name i (.object ms)) := by
  simp only [taken, field]
  rw [partsAt_object]
  cases located name ms with
  | nil => cases absent <;> rfl
  | cons first others =>
    cases others with
    | nil => exact Checked.value?_ofExcept _ _
    | cons second others =>
      simp only
      cases r .buffer first.2 <;> rfl

theorem taken_field_array (name : String) (r : Reader α) (absent omitted : Option α) (i : Nat)
    (items : List Json) : (field name r absent omitted).taken i (.array items) =
      items[i]?.elim omitted r.taken := by
  simp only [taken, field]
  cases items[i]? with
  | none => cases omitted <;> rfl
  | some j => exact Checked.value?_ofExcept _ _

/-- A member of another name is nothing to a field. -/
theorem partsAt_cons_ne {name key : String} (ne : key ≠ name) (i : Nat) (value : Json)
    (ms : List (String × Json)) :
    partsAt name i (.object ((key, value) :: ms)) = partsAt name i (.object ms) := by
  simp only [partsAt, List.filterMap_cons, if_neg ne]

theorem partsAt_cons_self (name : String) (i : Nat) (value : Json) (ms : List (String × Json)) :
    partsAt name i (.object ((name, value) :: ms)) = value :: partsAt name i (.object ms) := by
  simp only [partsAt, List.filterMap_cons, if_true]

/-- An object without a member of a name has nothing for the field. -/
theorem partsAt_of_not_mem {name : String} {ms : List (String × Json)}
    (lacking : name ∉ ms.map Prod.fst) (i : Nat) : partsAt name i (.object ms) = [] := by
  apply List.filterMap_eq_nil_iff.mpr
  intro m mem
  apply if_neg
  rintro rfl
  exact lacking (List.mem_map_of_mem mem)

theorem lookup_of_mem {slots : List Slot} (nodup : (slots.map Prod.fst).Nodup) {name : String}
    {rest : Shape × Option Json} (mem : (name, rest) ∈ slots) : slots.lookup name = some rest := by
  obtain ⟨before, after, rfl⟩ := List.append_of_mem mem
  refine List.lookup_eq_some_iff.mpr ⟨before, after, rfl, ?_⟩
  intro p earlier
  rw [List.map_append, List.map_cons, List.nodup_append] at nodup
  exact bne_iff_ne.mpr (nodup.2.2 p.1 (List.mem_map_of_mem earlier) name List.mem_cons_self).symm

section Field

variable {name : String} {r : Reader α} {absent omitted : Option α} {slots : List Slot} {i : Nat}
  {shape : Shape} {default : Option Json}

/-- A member with its default says to a field what no member says. -/
theorem taken_field_default (slot : slots[i]? = some (name, shape, default))
    (same : ∀ j ∈ default, r.taken j = absent) (nodup : (slots.map Prod.fst).Nodup)
    {ms : List (String × Json)} {key : String} {shape' : Shape} {value : Json}
    (declared : (key, shape', some value) ∈ slots) (lacking : key ∉ ms.map Prod.fst) :
    (field name r absent omitted).taken i (.object ((key, value) :: ms)) =
      (field name r absent omitted).taken i (.object ms) := by
  rw [taken_field_object, taken_field_object]
  by_cases ours : key = name
  · subst ours
    have unique := (lookup_of_mem nodup declared).symm.trans
      (lookup_of_mem nodup (List.mem_of_getElem? slot))
    have stated : default = some value := (Prod.ext_iff.mp (Option.some.inj unique)).2.symm
    rw [partsAt_cons_self, partsAt_of_not_mem lacking]
    exact same value stated
  · rw [partsAt_cons_ne ours]

/-- A field keeps to what is declared in its place. -/
theorem field_keeps (slot : slots[i]? = some (name, shape, default)) (hr : r.Keeps shape)
    (same : ∀ j ∈ default, r.taken j = absent) : (field name r absent omitted).Keeps slots i := by
  intro nodup j j' edit held
  have mem : (name, shape, default) ∈ slots := List.mem_of_getElem? slot
  cases edit with
  | permute perm =>
    rw [taken_field_object, taken_field_object]
    exact Reader.fromSole_perm (perm.filterMap _)
  | @insert _ ms key value undeclared =>
    have other : key ≠ name := by
      rintro rfl
      exact undeclared (List.mem_map_of_mem mem)
    rw [taken_field_object, taken_field_object, partsAt_cons_ne other]
  | fill declared lacking => exact (taken_field_default slot same nodup declared lacking).symm
  | clear declared lacking => exact taken_field_default slot same nodup declared lacking
  | @member _ before after key j j' inner =>
    have value : j.storable = true := storable_of_mem_object held (m := (key, j)) (by simp)
    rw [taken_field_object, taken_field_object]
    simp only [partsAt, List.filterMap_append, List.filterMap_cons]
    by_cases ours : key = name
    · subst ours
      rw [Shape.member, lookup_of_mem nodup mem] at inner
      simp only [if_true]
      exact Reader.fromSole_replace (hr j j' inner value) _ _
    · simp only [if_neg ours]
  | @item _ before after j j' inner =>
    rw [taken_field_array, taken_field_array]
    obtain here | rfl | there := Nat.lt_trichotomy i before.length
    · rw [List.getElem?_append_left here, List.getElem?_append_left here]
    · rw [Shape.item, slot] at inner
      simp only [List.getElem?_append_right (Nat.le_refl _), Nat.sub_self, List.getElem?_cons_zero]
      exact hr j j' inner (storable_of_mem_array held (by simp))
    · obtain ⟨k, rfl⟩ := Nat.exists_eq_add_of_lt there
      simp only [Nat.add_assoc, List.getElem?_append_right (Nat.le_add_right _ _),
        Nat.add_sub_cancel_left, List.getElem?_cons_succ]

end Field

/-- Members that are not declared are passed over if they are well-formed. -/
theorem strangers_of_sound {fields : List String} {ms : List (String × Json)}
    (sound : ∀ m ∈ ms, m.1 ∉ fields → m.2.sound = true) : strangers fields ms = .good () := by
  unfold strangers
  split
  · next m i found =>
    have stranger := List.find?_some found
    have mem := List.fst_mem_of_mem_zipIdx (List.mem_of_find?_eq_some found)
    simp only [Bool.and_eq_true, Bool.not_eq_true', List.contains_eq_mem,
      decide_eq_false_iff_not] at stranger
    rw [sound m mem stranger.1] at stranger
    cases stranger.2
  · rfl

/-- A tree that can be held has no member that is not well-formed. -/
theorem strangers_of_storable {ms : List (String × Json)} (held : (Json.object ms).storable = true)
    (fields : List String) : strangers fields ms = .good () :=
  strangers_of_sound fun m mem _ => sound_of_storable m.2 (storable_of_mem_object held mem)

/-- What is taken from a record that can be held. -/
theorem taken_read_object (record : Record α) {ms : List (String × Json)}
    (held : (Json.object ms).storable = true) :
    record.read.taken (.object ms) = record.taken 0 (.object ms) := by
  simp only [Reader.taken, read, strangers_of_storable held, taken, Checked.map]
  cases record.ofMembers .buffer ms <;> rfl

theorem taken_read_array (record : Record α) (items : List Json) :
    record.read.taken (.array items) =
      if record.fields.length < items.length then none else record.taken 0 (.array items) := by
  simp only [Reader.taken, read, taken]
  change Checked.value? _ = _
  rw [Checked.value?_seq, surplus]
  split
  · rfl
  · cases (record.ofItems .buffer 0 items).value? <;> rfl

theorem Keeps.read {record : Record α} {slots : List Slot} (h : record.Keeps slots 0)
    (nodup : (slots.map Prod.fst).Nodup) : record.read.Keeps (.record slots) := by
  intro j j' edit held
  have held' : j'.storable = true := edit.storable ▸ held
  have same := h nodup j j' edit held
  cases edit with
  | item =>
    rw [taken_read_array, taken_read_array, same]
    simp only [List.length_append, List.length_cons]
  | _ => rw [taken_read_object record held, taken_read_object record held', same]

end Record

end AttackMap.Json
