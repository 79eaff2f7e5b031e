import AttackMap.Proofs.Json.Edits
import Mathlib.Logic.Relation

/-!
# Edits of tagged messages

A tagged message is read in one pass that looks for the tag and holds back
the rest. What comes of it can be said without the pass (`message?`): the
tag is what a required field of its name takes, the tag names the record,
and the record takes what stands beside the tag. Only trees that can be held
come to anything, and of those within the nesting limit all do
(`readTagged_toOption`).

So a tagged message is edited as the record that its tag names with the tag
as one member more (`envelope`), and such an edit changes nothing
(`message?_edit`): it leaves the tag alone, and beside the tag it is an edit
of the record.
-/

namespace AttackMap.Json

open Shape (Slot)

variable {α β : Type} {key : String}

/-! ## The tag and what stands beside it -/

/-- The tag of a message. -/
def tag? (key : String) (j : Json) : Option String := (Record.required key Reader.string).taken 0 j

/-- A message without its tag. -/
def beside (key : String) : Json → Json
  | .object ms => .object (ms.filter (·.1 ≠ key))
  | .array items => .array items.tail
  | j => j

/-- What a tree is as a tagged message, if it can be held. -/
def message? (key : String) (variants : List (String × Record α)) (j : Json) : Option α :=
  if j.storable then
    (tag? key j).bind fun name => (variants.lookup name).bind fun record =>
      record.read.taken (beside key j)
  else none

theorem storable_beside {j : Json} (held : j.storable = true) : (beside key j).storable = true := by
  cases j with
  | object ms =>
    rw [beside, storable, storableMembers_eq_all, List.all_eq_true]
    exact fun m mem => storable_of_mem_object held (List.mem_filter.mp mem).1
  | array items =>
    rw [beside, storable, storableItems_eq_all, List.all_eq_true]
    exact fun j mem => storable_of_mem_array held (List.mem_of_mem_tail mem)
  | _ => exact held

theorem tag?_cons_ne {k : String} (other : k ≠ key) (j : Json) (r : List (String × Json)) :
    tag? key (.object ((k, j) :: r)) = tag? key (.object r) := by
  simp only [tag?, Record.required, Record.taken_field_object, Record.partsAt_cons_ne other]

theorem tag?_cons_self (j : Json) (r : List (String × Json)) :
    tag? key (.object ((key, j) :: r)) =
      if key ∈ r.map Prod.fst then none else Reader.string.taken j := by
  rw [tag?, Record.required, Record.taken_field_object, Record.partsAt_cons_self]
  split
  · next again =>
    obtain ⟨m, mem, rfl⟩ := List.mem_map.mp again
    have part : m.2 ∈ partsAt m.1 0 (.object r) := List.mem_filterMap.mpr ⟨m, mem, if_pos rfl⟩
    obtain ⟨other, others, form⟩ := List.exists_cons_of_ne_nil (List.ne_nil_of_mem part)
    rw [form]
    rfl
  · next alone =>
    rw [Record.partsAt_of_not_mem alone]
    rfl

/-! ## The pass -/

section Pass

variable {variants : List (String × β)} {ms : List (String × Json)}
  {found : β × List (String × Json)}

/-- With the tag found, the pass holds back what is left, if it can. -/
theorem untag_some_eq_ok_iff {v : β} {held : List (String × Json)} :
    untag key variants ms (some v) held = .ok found ↔
      (∀ m ∈ ms, m.1 ≠ key ∧ holdable m.2 = true) ∧ (v, held.reverse ++ ms) = found := by
  induction ms generalizing held with
  | nil => simp [untag]
  | cons m r ih =>
    obtain ⟨k, j⟩ := m
    rw [untag]
    by_cases ours : k = key
    · simp [ours]
    · by_cases can : holdable j = true
      · simp [ours, can, ih]
      · simp [ours, can]

/-- Where the tag stands, the pass looks up what it names. -/
theorem untag_tag_eq_ok_iff {name : String} {held : List (String × Json)} :
    untag key variants ((key, .string name) :: ms) none held = .ok found ↔
      ∃ v, variants.lookup name = some v ∧ (∀ m ∈ ms, m.1 ≠ key ∧ holdable m.2 = true) ∧
        (v, held.reverse ++ ms) = found := by
  rw [untag, if_pos rfl, Reader.named]
  cases known : variants.lookup name with
  | none => simp [bind, Except.bind]
  | some v =>
    simp only [Option.some.injEq, exists_eq_left']
    exact untag_some_eq_ok_iff

/-- A tag with another after it is none, whatever it is. -/
theorem untag_cons_self_of_mem {j : Json} {held : List (String × Json)}
    (again : key ∈ ms.map Prod.fst) :
    untag key variants ((key, j) :: ms) none held ≠ .ok found := by
  intro pass
  cases j with
  | string name =>
    obtain ⟨v, -, others, -⟩ := untag_tag_eq_ok_iff.mp pass
    obtain ⟨m, mem, same⟩ := List.mem_map.mp again
    exact (others m mem).1 same
  | _ => simp [untag] at pass

/-- The pass finds the only tag and holds back the rest, if it can. -/
theorem untag_none_eq_ok_iff {held : List (String × Json)} :
    untag key variants ms none held = .ok found ↔
      ∃ name v, tag? key (.object ms) = some name ∧ variants.lookup name = some v ∧
        (∀ m ∈ ms, m.1 ≠ key → holdable m.2 = true) ∧
        (v, held.reverse ++ ms.filter (·.1 ≠ key)) = found := by
  induction ms generalizing held with
  | nil => simp [untag, tag?, Record.required, Record.taken_field_object, partsAt, Reader.fromSole]
  | cons m r ih =>
    obtain ⟨k, j⟩ := m
    by_cases ours : k = key
    · subst ours
      rw [tag?_cons_self]
      by_cases again : k ∈ r.map Prod.fst
      · rw [if_pos again]
        constructor
        · intro pass
          exact absurd pass (untag_cons_self_of_mem again)
        · rintro ⟨_, _, none, -⟩
          cases none
      · have others : ∀ m ∈ r, m.1 ≠ k := by
          intro m mem same
          exact again (List.mem_map.mpr ⟨m, mem, same⟩)
        have kept : ((k, j) :: r).filter (·.1 ≠ k) = r := by
          rw [List.filter_cons_of_neg (by simp)]
          apply List.filter_eq_self.mpr
          intro m mem
          exact decide_eq_true (others m mem)
        rw [if_neg again, kept]
        cases j with
        | string name =>
          have hold : (∀ m ∈ (k, .string name) :: r, m.1 ≠ k → holdable m.2 = true) ↔
              ∀ m ∈ r, m.1 ≠ k ∧ holdable m.2 = true := by
            rw [List.forall_mem_cons]
            constructor
            · intro h m mem
              exact ⟨others m mem, h.2 m mem (others m mem)⟩
            · intro h
              refine ⟨absurd rfl, ?_⟩
              intro m mem _
              exact (h m mem).2
          have tag : Reader.string.taken (.string name) = some name := rfl
          simp only [untag_tag_eq_ok_iff, tag, hold, Option.some.injEq, exists_eq_left',
            exists_and_left]
        | _ => simp [untag, Reader.taken, Reader.string, Except.toOption]
    · have tag := tag?_cons_ne ours j r
      by_cases can : holdable j = true
      · simp [untag, ours, can, ih, tag]
      · simp [untag, ours, can]

end Pass

/-! ## What comes of a tree -/

section Messages

variable {variants : List (String × Record α)}

theorem taken_eq_some_iff {r : Reader α} {j : Json} {a : α} :
    r.taken j = some a ↔ r .buffer j = .ok a := by
  rw [Reader.taken]
  cases r .buffer j <;> simp [Except.toOption]

/-- Every member with the tag's key is the tag. -/
theorem tag_member {ms : List (String × Json)} {name : String}
    (tag : tag? key (.object ms) = some name) {m : String × Json} (mem : m ∈ ms)
    (ours : m.1 = key) : m.2 = .string name := by
  rw [tag?, Record.required, Record.taken_field_object] at tag
  have part : m.2 ∈ partsAt key 0 (.object ms) := List.mem_filterMap.mpr ⟨m, mem, if_pos ours⟩
  match parts : partsAt key 0 (.object ms) with
  | [] => rw [parts] at part; cases part
  | [j] =>
    rw [parts] at part tag
    obtain rfl := List.mem_singleton.mp part
    cases value : m.2 <;> rw [value] at tag <;> cases tag
    rfl
  | _ :: _ :: _ => rw [parts] at tag; cases tag

/-- The tag can always be held, so it is for what stands beside it to say whether
an object can. -/
theorem tagged_held_iff {ms : List (String × Json)} {name : String}
    (tag : tag? key (.object ms) = some name) :
    (Json.object ms).storable = true ∧ (Json.object ms).depth ≤ nestingLimit ↔
      ∀ m ∈ ms, m.1 ≠ key → holdable m.2 = true := by
  rw [object_held_iff]
  constructor
  · intro hold m mem _
    exact hold m mem
  · intro hold m mem
    by_cases ours : m.1 = key
    · rw [tag_member tag mem ours]
      rfl
    · exact hold m mem ours

theorem message?_eq_some_iff {j : Json} {a : α} :
    message? key variants j = some a ↔ j.storable = true ∧
      ∃ name, tag? key j = some name ∧ ∃ record, variants.lookup name = some record ∧
        record.read .buffer (beside key j) = .ok a := by
  simp only [message?, Option.ite_none_right_eq_some, Option.bind_eq_some_iff, taken_eq_some_iff]

theorem readTagged_object_eq_ok_iff {ms : List (String × Json)} {a : α} :
    readTagged key variants (.object ms) = .ok a ↔
      ∃ found, untag key variants ms none [] = .ok found ∧
        found.1.read .buffer (.object found.2) = .ok a := by
  rw [readTagged]
  cases untag key variants ms none [] <;> simp [bind, Except.bind]

/-- The array form has its tag in front. -/
theorem readTagged_array_eq_ok_iff {first : Json} {rest : List Json} {a : α} :
    readTagged key variants (.array (first :: rest)) = .ok a ↔
      ∃ name, first = .string name ∧ ∃ record, variants.lookup name = some record ∧
        rest.all holdable = true ∧ record.read .buffer (.array rest) = .ok a := by
  cases first with
  | string name =>
    simp only [readTagged, Reader.named]
    cases known : variants.lookup name with
    | none => simp [known, bind, Except.bind]
    | some record =>
      by_cases can : rest.all holdable = true <;> simp [known, can, bind, Except.bind]
  | _ => simp [readTagged]

theorem tag?_array (first : Json) (rest : List Json) :
    tag? key (.array (first :: rest)) = Reader.string.taken first :=
  Record.taken_field_array ..

theorem taken_string_eq_some_iff {j : Json} {s : String} :
    Reader.string.taken j = some s ↔ j = .string s := by
  rw [taken_eq_some_iff]
  cases j <;> simp [Reader.string]

/-- **Reading a tagged message.** What a tree can be read as is what it is, if it
nests no deeper than the limit, and a deeper one cannot be read. -/
theorem readTagged_eq_ok_iff {j : Json} {a : α} :
    readTagged key variants j = .ok a ↔
      message? key variants j = some a ∧ j.depth ≤ nestingLimit := by
  rw [message?_eq_some_iff]
  cases j with
  | object ms =>
    simp only [readTagged_object_eq_ok_iff, untag_none_eq_ok_iff, beside]
    constructor
    · rintro ⟨_, ⟨name, record, tag, known, hold, rfl⟩, read⟩
      obtain ⟨held, within⟩ := (tagged_held_iff tag).mpr hold
      exact ⟨⟨held, name, tag, record, known, read⟩, within⟩
    · rintro ⟨⟨held, name, tag, record, known, read⟩, within⟩
      have hold := (tagged_held_iff tag).mp ⟨held, within⟩
      exact ⟨_, ⟨name, record, tag, known, hold, rfl⟩, read⟩
  | array items =>
    cases items with
    | nil => simp [readTagged, tag?, Record.required, Record.taken_field_array]
    | cons first rest =>
      simp only [readTagged_array_eq_ok_iff, tag?_array, taken_string_eq_some_iff, beside,
        List.tail_cons]
      have held_iff (name : String) : (Json.array (.string name :: rest)).storable = true ∧
          (Json.array (.string name :: rest)).depth ≤ nestingLimit ↔
            rest.all holdable = true := by
        rw [array_held_iff, List.forall_mem_cons, List.all_eq_true]
        exact and_iff_right rfl
      constructor
      · rintro ⟨name, rfl, record, known, hold, read⟩
        obtain ⟨held, within⟩ := (held_iff name).mpr hold
        exact ⟨⟨held, name, rfl, record, known, read⟩, within⟩
      · rintro ⟨⟨held, name, rfl, record, known, read⟩, within⟩
        exact ⟨name, rfl, record, known, (held_iff name).mp ⟨held, within⟩, read⟩
  | _ => simp [readTagged, tag?, Record.taken]

theorem readTagged_toOption {j : Json} (within : j.depth ≤ nestingLimit) :
    (readTagged key variants j).toOption = message? key variants j := by
  ext a
  have known : readTagged key variants j = .ok a ↔ message? key variants j = some a := by
    rw [readTagged_eq_ok_iff, and_iff_left within]
  rw [← known]
  cases readTagged key variants j <;> simp [Except.toOption]

theorem Document.readBy_eq_ok_iff {d : Document} {r : Json → Except Complaint α} {a : α} :
    d.readBy r = .ok a ↔ r d.root = .ok a ∧ d.trailing = false := by
  rw [Document.readBy]
  cases r d.root <;> cases d.trailing <;> simp [bind, Except.bind]

/-- A message whose tag, record and members are known. -/
theorem message?_object {ms : List (String × Json)} {name : String} {record : Record α} {a : α}
    (held : (Json.object ms).storable = true) (tag : tag? key (.object ms) = some name)
    (known : variants.lookup name = some record)
    (taken : record.taken 0 (.object (ms.filter (·.1 ≠ key))) = some a) :
    message? key variants (.object ms) = some a := by
  have inner : (Json.object (ms.filter (·.1 ≠ key))).storable = true := storable_beside held
  simp only [message?, if_pos held, tag, known, Option.bind_some, beside,
    Record.taken_read_object record inner, taken]

end Messages

/-! ## Edits -/

/-- The shape of a tagged message: the record that the tag names, with the tag
in front. -/
def envelope (key : String) (declared : List (String × List Slot)) (j : Json) : Shape :=
  .record ((key, .leaf, none) :: ((tag? key j).bind fun name => declared.lookup name).getD [])

/-- What is declared for the tags is what the records beside them keep to. -/
structure Declares (key : String) (declared : List (String × List Slot))
    (variants : List (String × Record α)) : Prop where
  /-- No name is declared twice, and none is the tag's. -/
  nodup : ∀ name slots, declared.lookup name = some slots → (key :: slots.map Prod.fst).Nodup
  keeps : ∀ name record, variants.lookup name = some record →
    record.read.Keeps (.record ((declared.lookup name).getD []))

section Envelope

variable {slots : List Slot} {j j' : Json}

theorem tag?_edit (nodup : (key :: slots.map Prod.fst).Nodup)
    (edit : Edit (.record ((key, .leaf, none) :: slots)) j j') (held : j.storable = true) :
    tag? key j = tag? key j' := by
  have keeps : (Record.required key Reader.string).Keeps ((key, .leaf, none) :: slots) 0 :=
    Record.field_keeps rfl (Reader.plain_string.keeps .leaf) fun _ none => nomatch none
  exact keeps nodup j j' edit held

/-- An edit of a message is one of the record beside the tag, or none there. -/
theorem beside_edit (nodup : (key :: slots.map Prod.fst).Nodup)
    (edit : Edit (.record ((key, .leaf, none) :: slots)) j j') :
    beside key j = beside key j' ∨ Edit (.record slots) (beside key j) (beside key j') := by
  have apart : key ∉ slots.map Prod.fst := (List.nodup_cons.mp nodup).1
  have declared_ne {k : String} {shape : Shape} {value : Json}
      (declared : (k, shape, some value) ∈ (key, Shape.leaf, none) :: slots) :
      k ≠ key ∧ (k, shape, some value) ∈ slots := by
    obtain same | mem := List.mem_cons.mp declared
    · cases same
    · exact ⟨fun same => apart (same ▸ List.mem_map_of_mem mem), mem⟩
  have kept {k : String} (other : k ≠ key) (value : Json) (ms : List (String × Json)) :
      ((k, value) :: ms).filter (·.1 ≠ key) = (k, value) :: ms.filter (·.1 ≠ key) :=
    List.filter_cons_of_pos (decide_eq_true other)
  have lacks {k : String} {ms : List (String × Json)} (lacking : k ∉ ms.map Prod.fst) :
      k ∉ (ms.filter (·.1 ≠ key)).map Prod.fst :=
    fun mem => lacking ((List.filter_sublist.map Prod.fst).subset mem)
  cases edit with
  | permute perm => exact .inr (.permute (perm.filter _))
  | insert undeclared storable =>
    obtain ⟨other, undeclared⟩ := not_or.mp (mt List.mem_cons.mpr undeclared)
    rw [beside, beside, kept other]
    exact .inr (.insert undeclared storable)
  | fill declared lacking storable =>
    obtain ⟨other, declared⟩ := declared_ne declared
    rw [beside, beside, kept other]
    exact .inr (.fill declared (lacks lacking) storable)
  | clear declared lacking storable =>
    obtain ⟨other, declared⟩ := declared_ne declared
    rw [beside, beside, kept other]
    exact .inr (.clear declared (lacks lacking) storable)
  | @member _ before after k j j' inner =>
    rw [beside, beside, List.filter_append, List.filter_append]
    by_cases ours : k = key
    · left
      rw [List.filter_cons_of_neg (by simp [ours]), List.filter_cons_of_neg (by simp [ours])]
    · right
      rw [Shape.member, List.lookup_cons, beq_false_of_ne ours] at inner
      rw [kept ours, kept ours]
      exact .member inner
  | @item _ before after j j' inner =>
    cases before with
    | nil => exact .inl rfl
    | cons first before => exact .inr (.item inner)

variable {declared : List (String × List Slot)} {variants : List (String × Record α)}

theorem Declares.nodup_tagged (declares : Declares key declared variants) (tag : Option String) :
    (key :: ((tag.bind fun name => declared.lookup name).getD []).map Prod.fst).Nodup := by
  cases known : tag.bind fun name => declared.lookup name with
  | none => exact List.pairwise_singleton _ _
  | some slots =>
    obtain ⟨name, rfl, found⟩ := Option.bind_eq_some_iff.mp known
    exact declares.nodup name slots found

/-- **Edits of tagged messages.** What a tagged message comes to is not changed
by edits of the record that its tag names. -/
theorem message?_edit (declares : Declares key declared variants)
    (edit : Edit (envelope key declared j) j j') :
    message? key variants j = message? key variants j' := by
  simp only [message?, ← edit.storable]
  split
  · next held =>
    have nodup := declares.nodup_tagged (tag? key j)
    rw [← tag?_edit nodup edit held]
    cases tag : tag? key j with
    | none => rfl
    | some name =>
      rw [envelope, tag] at edit
      rw [tag] at nodup
      simp only [Option.bind_some]
      cases known : variants.lookup name with
      | none => rfl
      | some record =>
        obtain same | inner := beside_edit nodup edit
        · rw [same]
        · exact declares.keeps name record known _ _ inner (storable_beside held)
  · rfl

/-- Any number of edits changes nothing, if the nesting stays within the limit. -/
theorem readTagged_rewritten (declares : Declares key declared variants)
    (edits : Relation.ReflTransGen (fun j j' => Edit (envelope key declared j) j j') j j')
    (within : j.depth ≤ nestingLimit) (within' : j'.depth ≤ nestingLimit) :
    (readTagged key variants j).toOption = (readTagged key variants j').toOption := by
  have same : message? key variants j = message? key variants j' := by
    clear within within'
    induction edits with
    | refl => rfl
    | tail _ edit ih => exact ih.trans (message?_edit declares edit)
  rw [readTagged_toOption within, readTagged_toOption within', same]

end Envelope

end AttackMap.Json
