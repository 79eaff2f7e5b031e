import AttackMap.Json.Record

/-!
# What readers give

A reader may be known to give only values with some property (`Reader.Gives`):
what a double is read from names a finite one. A record has the property in
both of its forms if its parts have what it takes (`Record.Gives`), and a
part about which nothing is asked may be anything.
-/

namespace AttackMap.Json

variable {α β : Type}

/-- A value at a position is the value, and it has read well. -/
theorem Checked.ofExcept_eq_good_iff {i : Nat} {x : Except Complaint α} {a : α} :
    ofExcept i x = .good a ↔ x = .ok a := by
  cases x <;> simp [ofExcept]

/-- Every value that a reader takes has a property. -/
def Reader.Gives (r : Reader α) (P : α → Prop) : Prop := ∀ s j a, r s j = .ok a → P a

namespace Record

/-- Every value that a record is read as has a property. -/
structure Gives (record : Record α) (P : α → Prop) : Prop where
  ofMembers : ∀ s members a, record.ofMembers s members = .good a → P a
  ofItems : ∀ s i items a, record.ofItems s i items = .good a → P a

variable {P : β → Prop}

theorem Gives.pure {b : β} (h : P b) : (pure b : Record β).Gives P where
  ofMembers _ _ _ good := by
    cases good
    exact h
  ofItems _ _ _ _ good := by
    cases good
    exact h

/-- A function and its argument: the function brings what is to be shown to
what the argument has. -/
theorem Gives.seq {f : Record (α → β)} {x : Record α} {Q : α → Prop}
    (hf : f.Gives fun g => ∀ a, Q a → P (g a)) (hx : x.Gives Q) : (f <*> x).Gives P where
  ofMembers s members b good := by
    obtain ⟨g, a, function, argument, rfl⟩ := Checked.seq_eq_good_iff.mp good
    exact hf.ofMembers s members g function a (hx.ofMembers s members a argument)
  ofItems s i items b good := by
    obtain ⟨g, a, function, argument, rfl⟩ := Checked.seq_eq_good_iff.mp good
    exact hf.ofItems s i items g function a (hx.ofItems s _ items a argument)

/-- An argument about which nothing is asked. -/
theorem Gives.seq_any {f : Record (α → β)} {x : Record α} (hf : f.Gives fun g => ∀ a, P (g a)) :
    (f <*> x).Gives P := by
  have any : f.Gives fun g => ∀ a, True → P (g a) :=
    ⟨fun s members g good a _ => hf.ofMembers s members g good a,
      fun s i items g good a _ => hf.ofItems s i items g good a⟩
  exact any.seq ⟨fun _ _ _ _ => trivial, fun _ _ _ _ _ => trivial⟩

/-- The first field, about which nothing is asked. -/
theorem Gives.map_any {f : α → β} {x : Record α} (h : ∀ a, P (f a)) : (f <$> x).Gives P :=
  (Gives.pure h).seq_any

/-- A field that must be there has what its reader gives. -/
theorem Gives.required {r : Reader β} (h : r.Gives P) (name : String) :
    (required name r).Gives P where
  ofMembers s members b good := by
    simp only [Record.required, field] at good
    split at good
    · cases good
    · exact h s _ b (Checked.ofExcept_eq_good_iff.mp good)
    · -- of two members there is none that is taken
      split at good <;> cases good
  ofItems s i items b good := by
    simp only [Record.required, field] at good
    split at good
    · exact h s _ b (Checked.ofExcept_eq_good_iff.mp good)
    · cases good

/-- What a record is read as has the property in either form. -/
theorem Gives.read {record : Record β} (h : record.Gives P) : record.read.Gives P := by
  intro s j b good
  cases j with
  | object members =>
    obtain ⟨g, a, skipped, taken, rfl⟩ :=
      Checked.seq_eq_good_iff.mp (Checked.toExcept_eq_ok_iff.mp good)
    obtain ⟨_, -, rfl⟩ := Checked.map_eq_good_iff.mp skipped
    exact h.ofMembers s members a taken
  | array items =>
    obtain ⟨g, a, short, taken, rfl⟩ :=
      Checked.seq_eq_good_iff.mp (Checked.toExcept_eq_ok_iff.mp good)
    obtain ⟨_, -, rfl⟩ := Checked.map_eq_good_iff.mp short
    exact h.ofItems s 0 items a taken
  | _ => cases good

end Record

end AttackMap.Json
