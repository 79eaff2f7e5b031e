import AttackMap.Text.Ascii
import AttackMap.Text.Blank
import Mathlib.Data.List.DropRight

/-!
# Trimming as a normal form

Two texts are alike if they differ in the blanks around them and in the case
of ASCII letters only (`Alike`). That says nothing of trimming: some blanks
are taken off at both ends, and what is left is compared. Trimming takes off
as many as there are, and this is as good as any other choice
(`alike_iff`), since a blank at an end stays one whatever the case of the
letters around it.

So to be alike is an equivalence, and what trimming leaves is nothing or has
no blank at either end (`eq_nil_or_bare_trimmed`).
-/

namespace AttackMap.Text

/-! ## Blanks around a text -/

/-- There is nothing but blanks in a text. -/
def AllBlank (cs : List Char) : Prop := ∀ c ∈ cs, isBlank c = true

instance (cs : List Char) : Decidable (AllBlank cs) :=
  List.decidableBAll (fun c => isBlank c = true) cs

/-- There is something in a text and no blank at either end. -/
structure Bare (cs : List Char) : Prop where
  filled : cs ≠ []
  front : ∀ c ∈ cs.head?, isBlank c = false
  back : ∀ c ∈ cs.getLast?, isBlank c = false

/-- A text is another with blanks around it. -/
def Pads (core cs : List Char) : Prop :=
  ∃ front back, cs = front ++ core ++ back ∧ AllBlank front ∧ AllBlank back

/-- Two texts are the same but for blanks around them and the case of ASCII
letters. -/
def Alike (s t : String) : Prop :=
  ∃ core core', Pads core s.toList ∧ Pads core' t.toList ∧
    core.map Char.toLower = core'.map Char.toLower

/-! ## What trimming leaves -/

/-- A text without the blanks at its ends. -/
def trimmed (cs : List Char) : List Char := trimRight (trimLeft cs)

theorem toList_trim (s : String) : (trim s).toList = trimmed s.toList := String.toList_ofList

theorem trimLeft_append_of_blank {front : List Char} (blank : AllBlank front) (cs : List Char) :
    trimLeft (front ++ cs) = trimLeft cs :=
  List.dropWhile_append_of_pos blank

theorem trimRight_append_of_blank {back : List Char} (blank : AllBlank back) (cs : List Char) :
    trimRight (cs ++ back) = trimRight cs := by
  have reversed : ∀ c ∈ back.reverse, isBlank c = true := fun c mem =>
    blank c (List.mem_reverse.mp mem)
  rw [trimRight, List.reverse_append, List.dropWhile_append_of_pos reversed, trimRight]

/-- Blanks put around a text make no difference to what trimming leaves. -/
theorem trimmed_pads {core cs : List Char} (pads : Pads core cs) : trimmed cs = trimmed core := by
  obtain ⟨front, back, rfl, blankFront, blankBack⟩ := pads
  rw [trimmed, List.append_assoc, trimLeft_append_of_blank blankFront, trimmed]
  by_cases blank : trimLeft core = []
  · -- a text of blanks alone is trimmed away from the front
    have all : AllBlank core := List.dropWhile_eq_nil_iff.mp blank
    have nothing : trimLeft back = [] := List.dropWhile_eq_nil_iff.mpr blankBack
    rw [trimLeft_append_of_blank all, nothing, blank]
  · have kept : trimLeft (core ++ back) = trimLeft core ++ back := by
      rw [trimLeft, List.dropWhile_append, if_neg]
      · rfl
      · rwa [List.isEmpty_iff]
    rw [kept, trimRight_append_of_blank blankBack]

/-- A text is what trimming leaves of it with blanks around. -/
theorem pads_trimmed (cs : List Char) : Pads (trimmed cs) cs := by
  refine ⟨cs.takeWhile isBlank, (trimLeft cs).rtakeWhile isBlank, ?_, ?_, ?_⟩
  · have back : trimmed cs ++ (trimLeft cs).rtakeWhile isBlank = trimLeft cs :=
      List.rdropWhile_append_rtakeWhile
    rw [List.append_assoc, back, trimLeft, List.takeWhile_append_dropWhile]
  · intro c mem
    exact List.mem_takeWhile_imp mem
  · intro c mem
    exact List.mem_rtakeWhile_imp mem

theorem eq_nil_or_bare_trimmed (cs : List Char) : trimmed cs = [] ∨ Bare (trimmed cs) := by
  rw [or_iff_not_imp_left]
  intro filled
  refine ⟨filled, ?_, ?_⟩
  · -- the front of what is left is the front of what was left of the front
    intro c mem
    obtain ⟨more, same⟩ := List.rdropWhile_prefix isBlank (trimLeft cs)
    have head := List.head?_dropWhile_not isBlank cs
    have first : (trimLeft cs).head? = some c := by
      rw [← same]
      exact List.head?_append_of_ne_nil _ filled ▸ mem
    rw [show cs.dropWhile isBlank = trimLeft cs from rfl, first] at head
    exact head
  · intro c mem
    have last := List.rdropWhile_last_not isBlank (trimLeft cs) filled
    rw [List.getLast?_eq_some_getLast filled] at mem
    rw [← Option.some.inj mem]
    exact Bool.not_eq_true _ |>.mp last

/-- Trimming finds nothing to take off a bare text. -/
theorem Bare.trimmed_eq {cs : List Char} (bare : Bare cs) : trimmed cs = cs := by
  have left : trimLeft cs = cs := by
    cases cs with
    | nil => rfl
    | cons c rest => rw [trimLeft, List.dropWhile_cons, bare.front c rfl, if_neg Bool.false_ne_true]
  have right : cs.rdropWhile isBlank = cs := by
    rw [List.rdropWhile_eq_self_iff]
    intro filled
    rw [bare.back _ (List.getLast?_eq_some_getLast filled)]
    exact Bool.false_ne_true
  rw [trimmed, left]
  exact right

theorem trimmed_eq_nil_iff {cs : List Char} : trimmed cs = [] ↔ AllBlank cs := by
  constructor
  · intro nothing
    obtain ⟨front, back, same, blankFront, blankBack⟩ := nothing ▸ pads_trimmed cs
    rw [same, List.append_nil]
    exact List.forall_mem_append.mpr ⟨blankFront, blankBack⟩
  · intro blank
    have alone : Pads [] cs := ⟨cs, [], by simp, blank, List.forall_mem_nil _⟩
    exact trimmed_pads alone

/-! ## Letters -/

theorem isBlank_eq_false {c : Char} (low : 0x21 ≤ c.toNat) (high : c.toNat ≤ 0x7A) :
    isBlank c = false := by
  simp only [isBlank]
  grind

/-- A letter is no blank, be it a capital or not. -/
theorem isBlank_toLower (c : Char) : isBlank c.toLower = isBlank c := by
  by_cases capital : c.val ≥ 'A'.val ∧ c.val ≤ 'Z'.val
  · have low : 0x41 ≤ c.toNat := capital.1
    have high : c.toNat ≤ 0x5A := capital.2
    have small : c.toLower.toNat = c.toNat + 0x20 := by
      have folds : c.toLower.val = c.val + 0x20 := congrArg Char.val (dif_pos capital)
      refine (congrArg UInt32.toNat folds).trans ((UInt32.toNat_add ..).trans ?_)
      exact Nat.mod_eq_of_lt (show c.toNat + 0x20 < 2 ^ 32 by omega)
    rw [isBlank_eq_false (by omega) (by omega), isBlank_eq_false (by omega) (by omega)]
  · have stays : c.toLower = c := dif_neg capital
    rw [stays]

theorem trimmed_map_toLower (cs : List Char) :
    trimmed (cs.map Char.toLower) = (trimmed cs).map Char.toLower := by
  have same : isBlank ∘ Char.toLower = isBlank := funext isBlank_toLower
  simp only [trimmed, trimRight, trimLeft, List.dropWhile_map, same, ← List.map_reverse]

/-! ## Being alike -/

/-- Texts are alike if what trimming leaves of them is the same up to the
case of letters. -/
theorem alike_iff {s t : String} : Alike s t ↔ sameLetters (trim s) (trim t) = true := by
  rw [sameLetters, beq_iff_eq, toList_trim, toList_trim]
  constructor
  · rintro ⟨core, core', pads, pads', same⟩
    calc (trimmed s.toList).map Char.toLower
      _ = trimmed (core.map Char.toLower) := by rw [trimmed_pads pads, trimmed_map_toLower]
      _ = trimmed (core'.map Char.toLower) := by rw [same]
      _ = (trimmed t.toList).map Char.toLower := by rw [trimmed_pads pads', trimmed_map_toLower]
  · intro same
    exact ⟨_, _, pads_trimmed _, pads_trimmed _, same⟩

namespace Alike

theorem refl (s : String) : Alike s s := alike_iff.mpr (sameLetters_refl _)

theorem symm {s t : String} (h : Alike s t) : Alike t s := by
  rw [alike_iff, sameLetters_comm]
  exact alike_iff.mp h

theorem trans {s t u : String} (h : Alike s t) (h' : Alike t u) : Alike s u := by
  rw [alike_iff, sameLetters, beq_iff_eq] at h h' ⊢
  exact h.trans h'

theorem rel_symm {a b : Option String} (h : Option.Rel Alike a b) : Option.Rel Alike b a := by
  cases h with
  | none => exact .none
  | some same => exact .some same.symm

/-- Of two texts that are alike both are blank or neither. -/
theorem blank {s t : String} (h : Alike s t) (blank : AllBlank s.toList) : AllBlank t.toList := by
  rw [alike_iff, sameLetters, beq_iff_eq, toList_trim, toList_trim,
    trimmed_eq_nil_iff.mpr blank] at h
  exact trimmed_eq_nil_iff.mp (List.map_eq_nil_iff.mp h.symm)

end Alike

end AttackMap.Text
