import AttackMap.Proofs.Binary64.Sign
import AttackMap.Proofs.Json.Edits

/-!
# Reading values back

A reader that takes back what a writer writes inverts it (`Reader.Inverts`).
The readers of single values invert the writers of theirs, and those of
options and lists do if the readers of their parts do. A record is read back
from an object field by field, from one that was held back
(`Record.taken_seq_eq_some`) as from any other (`Record.ofMembers_seq`).
-/

namespace AttackMap.Json

namespace Reader

variable {α : Type}

/-- A reader takes back what is written. -/
def Inverts (r : Reader α) (write : α → Json) : Prop := ∀ s a, r s (write a) = .ok a

theorem whole_ofInt {low high i : Int} (above : low ≤ i) (below : i ≤ high) (s : Stage) :
    whole low high s (.ofInt i) = .ok i := by
  simp only [whole, ofInt, Numeral.toInt?_ofInt]
  exact if_pos ⟨above, below⟩

theorem uint64_ofNat (s : Stage) (n : UInt64) : uint64 s (.ofNat n.toNat) = .ok n := by
  have fits : (n.toNat : Int) ≤ Tally.greatest := by
    have := n.toNat_lt
    simp only [Tally.greatest]
    omega
  rw [uint64, ofNat, whole_ofInt (Int.natCast_nonneg _) fits]
  change Except.ok (UInt64.ofNat (n.toNat : Int).toNat) = _
  rw [Int.toNat_natCast, UInt64.ofNat_toNat]

theorem uint8_ofNat (s : Stage) (n : UInt8) : uint8 s (.ofNat n.toNat) = .ok n := by
  have fits : (n.toNat : Int) ≤ 0xff := by
    have := n.toNat_lt
    omega
  rw [uint8, ofNat, whole_ofInt (Int.natCast_nonneg _) fits]
  change Except.ok (UInt8.ofNat (n.toNat : Int).toNat) = _
  rw [Int.toNat_natCast, UInt8.ofNat_toNat]

theorem inverts_bool : Inverts bool .bool := fun _ _ => rfl
theorem inverts_string : Inverts string .string := fun _ _ => rfl

/-- A name is read back if it stands for what it is the name of. -/
theorem inverts_choice {options : List (String × α)} {name : α → String}
    (known : ∀ a, options.lookup (name a) = some a) :
    Inverts (choice options) fun a => .string (name a) := by
  intro s a
  simp only [choice, named, known]

/-- An option is read back if no value is written like a missing one. -/
theorem Inverts.optional {r : Reader α} {write : α → Json} (h : r.Inverts write)
    (present : ∀ a, write a ≠ .null) : Inverts r.optional (.ofOption write) := by
  intro s a
  cases a with
  | none => rfl
  | some a =>
    have some : r.optional s (write a) = Option.some <$> r s (write a) := by
      have there := present a
      cases value : write a with
      | null => exact absurd value there
      | _ => rfl
    rw [ofOption, some, h]
    rfl

theorem Inverts.list {r : Reader α} {write : α → Json} (h : r.Inverts write) :
    Inverts r.list (.ofList write) := by
  intro s as
  change (as.map write).mapM (r s) = .ok as
  induction as with
  | nil => rfl
  | cons a as ih =>
    rw [List.map_cons, List.mapM_cons, h, ih]
    rfl

end Reader

namespace Record

variable {α β : Type} {ms : List (String × Json)} {i : Nat}

/-- A field takes the value of its only member. -/
theorem taken_field_eq_some {name : String} {r : Reader α} {absent omitted : Option α} {j : Json}
    {a : α} (only : partsAt name i (.object ms) = [j]) (value : r .buffer j = .ok a) :
    (field name r absent omitted).taken i (.object ms) = some a := by
  rw [taken_field_object, only, Reader.fromSole, Reader.taken, value]
  rfl

theorem taken_seq_eq_some {f : Record (α → β)} {x : Record α} {g : α → β} {a : α}
    (hf : f.taken i (.object ms) = some g)
    (hx : x.taken (i + f.fields.length) (.object ms) = some a) :
    (f <*> x).taken i (.object ms) = some (g a) := by
  rw [taken_seq, hf, hx]
  rfl

theorem taken_map_eq_some {x : Record α} {a : α} (f : α → β)
    (hx : x.taken i (.object ms) = some a) : (f <$> x).taken i (.object ms) = some (f a) :=
  taken_seq_eq_some (f := pure f) rfl hx

/-! ### Wherever the object comes from -/

variable {s : Stage}

/-- A field that may be left out is read from its only member, or else has
what it has without one. -/
theorem ofMembers_defaulted {name : String} {r : Reader α} {d a : α}
    (alone : (∃ j, partsAt name 0 (.object ms) = [j] ∧ r s j = .ok a) ∨
      partsAt name 0 (.object ms) = [] ∧ a = d) :
    (defaulted name r d).ofMembers s ms = .good a := by
  rw [partsAt_object] at alone
  obtain ⟨j, only, value⟩ | ⟨lacking, rfl⟩ := alone
  · obtain ⟨⟨i, j⟩, located, rfl⟩ := List.map_eq_singleton_iff.mp only
    simp only [defaulted, field, located]
    rw [value]
    rfl
  · simp only [defaulted, field, List.map_eq_nil_iff.mp lacking]
    rfl

theorem ofMembers_seq {f : Record (α → β)} {x : Record α} {g : α → β} {a : α}
    (function : f.ofMembers s ms = .good g) (argument : x.ofMembers s ms = .good a) :
    (f <*> x).ofMembers s ms = .good (g a) :=
  Checked.seq_eq_good_iff.mpr ⟨g, a, function, argument, rfl⟩

theorem ofMembers_map {x : Record α} {a : α} (f : α → β) (argument : x.ofMembers s ms = .good a) :
    (f <$> x).ofMembers s ms = .good (f a) :=
  ofMembers_seq (f := pure f) rfl argument

/-- An object is read as what its fields give, if whatever else is in it is
well-formed. -/
theorem read_object {record : Record α} {a : α} (given : record.ofMembers s ms = .good a)
    (sound : ∀ m ∈ ms, m.1 ∉ record.fields → m.2.sound = true) :
    record.read s (.object ms) = .ok a := by
  rw [read, strangers_of_sound sound, given]
  rfl

end Record

/-! ## What can be held -/

/-- A natural number that fits a word can be held. -/
theorem storable_ofNat {n : Nat} (word : n < 2 ^ 64) : (ofNat n).storable = true := by
  have natural : Numeral.ofInt n = ⟨false, n, 0, none⟩ := by
    rw [Numeral.ofInt, Int.natAbs_natCast, decide_eq_false (by omega)]
  rw [ofNat, ofInt, storable, natural]
  exact Binary64.isSome_ofDecimal?_word word

end AttackMap.Json
