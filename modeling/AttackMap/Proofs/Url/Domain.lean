import AttackMap.Proofs.Url.Punycode
import AttackMap.Url.Domain
import Mathlib.Data.List.Forall2

/-!
# Domain names in their one form

The ASCII form of a domain name is a name of its own, and its ASCII form is
itself (`toAscii?_eq_some`). Letters are small already and stay so; a label
beyond ASCII has become a marked one, whose mark is accepted because what
follows it is the spelling of that label.

So there is nothing in the form that a URL gives a meaning to, and nothing
that would be read in another way the second time.
-/

namespace AttackMap.Url.Domain

/-! ## Lists with failures -/

section Lists

variable {α β : Type} {f : α → Option β}

theorem forall₂_of_mapM : ∀ {as : List α} {bs : List β}, as.mapM f = some bs →
    List.Forall₂ (fun a b => f a = some b) as bs
  | [], bs, h => by
    cases Option.some.inj h
    exact .nil
  | a :: as, bs, h => by
    rw [List.mapM_cons] at h
    obtain ⟨b, first, h⟩ := Option.bind_eq_some_iff.mp h
    obtain ⟨rest, others, h⟩ := Option.bind_eq_some_iff.mp h
    cases Option.some.inj h
    exact .cons first (forall₂_of_mapM others)

theorem mapM_of_forall₂ {as : List α} {bs : List β}
    (h : List.Forall₂ (fun a b => f a = some b) as bs) : as.mapM f = some bs := by
  induction h with
  | nil => rfl
  | cons first _ ih =>
    rw [List.mapM_cons, first, ih]
    rfl

theorem exists_of_mem_mapM {as : List α} {bs : List β} (h : as.mapM f = some bs) {b : β}
    (mem : b ∈ bs) : ∃ a ∈ as, f a = some b := by
  induction forall₂_of_mapM h with
  | nil => cases mem
  | @cons a b' as bs first rest ih =>
    rcases List.mem_cons.mp mem with rfl | mem
    · exact ⟨a, List.mem_cons_self, first⟩
    · obtain ⟨a, among, is⟩ := ih (mapM_of_forall₂ rest) mem
      exact ⟨a, List.mem_cons_of_mem _ among, is⟩

end Lists

/-! ## Characters -/

/-- A character that counts as itself. -/
@[reducible]
def Folded (c : Char) : Prop := folded? c = some [c]

/-- What letters at a distance become counts as itself. -/
theorem folded_shifted : ∀ r ∈ shifted, ∀ k < r.2.1 + 1 - r.1,
    Folded (Char.ofNat (r.1 + k + r.2.2)) := by
  decide +kernel

/-- What alternating letters become counts as itself. -/
theorem folded_alternating : ∀ r ∈ alternating, ∀ k < (r.2 - r.1) / 2 + 1,
    Folded (Char.ofNat (r.1 + 2 * k + 1)) := by
  decide +kernel

theorem folded_smallLetter (c : Char) : smallLetter c = c ∨ Folded (smallLetter c) := by
  unfold smallLetter
  dsimp only
  split
  · next low high d found =>
    have mem := List.mem_of_find?_eq_some found
    have within := List.find?_some found
    simp only [Bool.and_eq_true, decide_eq_true_eq] at within
    have one := folded_shifted _ mem (c.toNat - low) (by dsimp only; omega)
    rw [Nat.add_sub_cancel' within.1] at one
    exact .inr one
  · split
    · exact .inr (by decide)
    · split
      · next some =>
        obtain ⟨⟨low, high⟩, mem, within⟩ := List.any_eq_true.mp some
        simp only [Bool.and_eq_true, decide_eq_true_eq, beq_iff_eq] at within
        have one := folded_alternating _ mem ((c.toNat - low) / 2) (by dsimp only; omega)
        have place : low + 2 * ((c.toNat - low) / 2) = c.toNat := by omega
        rw [place] at one
        exact .inr one
      · exact .inl rfl

/-- What is told apart, beside letters, in what a character counts as. -/
theorem folded_of_smallLetter {c : Char} (free : (isForbidden c || Text.isBlank c) = false)
    (narrow : ¬ (0xFF01 ≤ c.toNat ∧ c.toNat ≤ 0xFF5E))
    (seen : ¬ (c.toNat = 0xAD ∨ c.toNat = 0x200B ∨ c.toNat = 0x2060 ∨ c.toNat = 0xFEFF ∨
      (0xFE00 ≤ c.toNat ∧ c.toNat ≤ 0xFE0F)))
    (noDot : ¬ (c.toNat = 0x3002 ∨ c.toNat = 0xFF0E ∨ c.toNat = 0xFF61))
    (used : ¬ ((0x80 ≤ c.toNat ∧ c.toNat < 0xA0) ∨ (0x200C ≤ c.toNat ∧ c.toNat ≤ 0x206F) ∨
      (0xE000 ≤ c.toNat ∧ c.toNat ≤ 0xF8FF) ∨ (0xFFF0 ≤ c.toNat ∧ c.toNat ≤ 0xFFFF) ∨
      0xE0000 ≤ c.toNat)) :
    Folded (smallLetter c) := by
  rcases folded_smallLetter c with same | folded
  · rw [same, Folded, folded?]
    simp only [if_neg seen, if_neg noDot, if_neg narrow, free, Bool.false_eq_true, if_false,
      if_neg used, same]
  · exact folded

/-- What a character counts as counts as itself. -/
theorem folded_of_mem {c d : Char} {cs : List Char} (h : folded? c = some cs) (mem : d ∈ cs) :
    Folded d := by
  simp only [folded?] at h
  by_cases seen : c.toNat = 0xAD ∨ c.toNat = 0x200B ∨ c.toNat = 0x2060 ∨ c.toNat = 0xFEFF ∨
      (0xFE00 ≤ c.toNat ∧ c.toNat ≤ 0xFE0F)
  · rw [if_pos seen] at h
    cases Option.some.inj h
    cases mem
  rw [if_neg seen] at h
  by_cases noDot : c.toNat = 0x3002 ∨ c.toNat = 0xFF0E ∨ c.toNat = 0xFF61
  · rw [if_pos noDot] at h
    rw [← Option.some.inj h, List.mem_singleton] at mem
    rw [mem]
    decide
  rw [if_neg noDot] at h
  -- from here on a wide character is the ASCII character that it stands for
  generalize ascii : (if 0xFF01 ≤ c.toNat ∧ c.toNat ≤ 0xFF5E then Char.ofNat (c.toNat - 0xFEE0)
    else c) = c' at h
  by_cases free : (isForbidden c' || Text.isBlank c') = true
  · rw [if_pos free] at h
    cases h
  rw [if_neg free] at h
  by_cases used : (0x80 ≤ c.toNat ∧ c.toNat < 0xA0) ∨ (0x200C ≤ c.toNat ∧ c.toNat ≤ 0x206F) ∨
      (0xE000 ≤ c.toNat ∧ c.toNat ≤ 0xF8FF) ∨ (0xFFF0 ≤ c.toNat ∧ c.toNat ≤ 0xFFFF) ∨
      0xE0000 ≤ c.toNat
  · rw [if_pos used] at h
    cases h
  rw [if_neg used] at h
  rw [← Option.some.inj h, List.mem_singleton] at mem
  rw [mem]
  rw [Bool.not_eq_true] at free
  by_cases wide : 0xFF01 ≤ c.toNat ∧ c.toNat ≤ 0xFF5E
  · rw [if_pos wide] at ascii
    have valid : (c.toNat - 0xFEE0).isValidChar := .inl (by omega)
    have low : c'.toNat = c.toNat - 0xFEE0 := by
      rw [← ascii, Char.ofNat, dif_pos valid]
      rfl
    exact folded_of_smallLetter free (by omega) (by omega) (by omega) (by omega)
  · rw [if_neg wide] at ascii
    subst ascii
    exact folded_of_smallLetter free wide seen noDot used

theorem folded_of_isDigit {c : Char} (is : Punycode.IsDigit c) : Folded c := by
  obtain ⟨d, small, rfl⟩ := is
  have all : ∀ d < 36, Folded (Punycode.digit d) := by decide +kernel
  exact all d small

/-- Text that counts as itself. -/
theorem mapM_folded? {cs : List Char} (folded : ∀ c ∈ cs, Folded c) :
    cs.mapM folded? = some (cs.map ([·])) := by
  induction cs with
  | nil => rfl
  | cons c rest ih =>
    obtain ⟨here, folded⟩ := List.forall_mem_cons.mp folded
    rw [List.mapM_cons, here, ih folded]
    rfl

theorem flatten_map_singleton (cs : List Char) : (cs.map ([·])).flatten = cs := by
  induction cs with
  | nil => rfl
  | cons c rest ih => rw [List.map_cons, List.flatten_cons, ih, List.singleton_append]

/-! ## Labels -/

theorem cut_of_not_mem {m : Char} {cs : List Char} (free : m ∉ cs) : cut m cs = [cs] := by
  induction cs with
  | nil => rfl
  | cons c rest ih =>
    rw [List.mem_cons, not_or] at free
    rw [cut, if_neg (Ne.symm free.1), ih free.2]

theorem cut_append_cons {m : Char} {cs : List Char} (free : m ∉ cs) (rest : List Char) :
    cut m (cs ++ m :: rest) = cs :: cut m rest := by
  induction cs with
  | nil => rw [List.nil_append, cut, if_pos rfl]
  | cons c cs ih =>
    rw [List.mem_cons, not_or] at free
    rw [List.cons_append, cut, if_neg (Ne.symm free.1), ih free.2]

/-- Parts put together with the mark between them come apart again. -/
theorem cut_joined {m : Char} {parts : List (List Char)} (some : parts ≠ [])
    (free : ∀ part ∈ parts, m ∉ part) : cut m (parts.intersperse [m]).flatten = parts := by
  induction parts with
  | nil => exact absurd rfl some
  | cons part rest ih =>
    obtain ⟨here, free⟩ := List.forall_mem_cons.mp free
    cases rest with
    | nil =>
      rw [List.intersperse_singleton, List.flatten_cons, List.flatten_nil, List.append_nil,
        cut_of_not_mem here]
    | cons next rest =>
      rw [List.intersperse_cons_cons, List.flatten_cons, List.flatten_cons, List.singleton_append,
        cut_append_cons here, ih (List.cons_ne_nil _ _) free]

theorem mem_joined {m c : Char} {parts : List (List Char)}
    (mem : c ∈ (parts.intersperse [m]).flatten) : c = m ∨ ∃ part ∈ parts, c ∈ part := by
  induction parts with
  | nil => cases mem
  | cons part rest ih =>
    cases rest with
    | nil => exact .inr ⟨part, List.mem_cons_self, by simpa using mem⟩
    | cons next rest =>
      rw [List.intersperse_cons_cons, List.flatten_cons, List.flatten_cons,
        List.singleton_append] at mem
      rcases List.mem_append.mp mem with mem | mem
      · exact .inr ⟨part, List.mem_cons_self, mem⟩
      · rcases List.mem_cons.mp mem with same | mem
        · exact .inl same
        · obtain same | ⟨part, among, mem⟩ := ih mem
          · exact .inl same
          · exact .inr ⟨part, List.mem_cons_of_mem _ among, mem⟩

theorem cut_ne_nil (m : Char) (cs : List Char) : cut m cs ≠ [] := by
  cases cs with
  | nil => exact List.cons_ne_nil _ _
  | cons c rest =>
    rw [cut]
    split
    · exact List.cons_ne_nil _ _
    · split <;> exact List.cons_ne_nil _ _

/-- The parts hold characters of the text, and not the mark. -/
theorem mem_and_ne_of_mem_cut {m : Char} {cs part : List Char} (among : part ∈ cut m cs) {c : Char}
    (mem : c ∈ part) : c ∈ cs ∧ c ≠ m := by
  induction cs generalizing part with
  | nil =>
    cases List.mem_singleton.mp among
    cases mem
  | cons d rest ih =>
    rw [cut] at among
    split at among
    · rcases List.mem_cons.mp among with rfl | among
      · cases mem
      · exact (ih among mem).imp_left (List.mem_cons_of_mem _)
    · next other =>
      split at among
      · next none => exact absurd none (cut_ne_nil m rest)
      · next first others parts =>
        rw [parts] at ih
        rcases List.mem_cons.mp among with rfl | among
        · rcases List.mem_cons.mp mem with rfl | mem
          · exact ⟨List.mem_cons_self, other⟩
          · exact (ih List.mem_cons_self mem).imp_left (List.mem_cons_of_mem _)
        · exact (ih (List.mem_cons_of_mem _ among) mem).imp_left (List.mem_cons_of_mem _)

/-- A character of a label in ASCII: it counts as itself and is no dot. -/
structure Small (c : Char) : Prop where
  ascii : c.toNat < 0x80
  folded : Folded c
  ne_dot : c ≠ '.'

instance (c : Char) : Decidable (Small c) :=
  decidable_of_iff (c.toNat < 0x80 ∧ Folded c ∧ c ≠ '.')
    ⟨fun ⟨ascii, folded, other⟩ => ⟨ascii, folded, other⟩,
      fun small => ⟨small.ascii, small.folded, small.ne_dot⟩⟩

/-- The ASCII form of a label that counts as itself is small, and is its own
ASCII form. -/
theorem label?_eq_some {label ascii : List Char} (h : label? label = some ascii)
    (folded : ∀ c ∈ label, Folded c) (apart : ∀ c ∈ label, c ≠ '.') :
    (∀ c ∈ ascii, Small c) ∧ label? ascii = some ascii := by
  have again := h
  unfold label? at h
  split at h
  · next plain =>
    have same : label = ascii := by
      split at h
      · obtain ⟨_, -, h⟩ := Option.bind_eq_some_iff.mp h
        obtain ⟨_, -, h⟩ := Option.bind_eq_some_iff.mp h
        split at h
        · exact Option.some.inj h
        · cases h
      · exact Option.some.inj h
    subst same
    refine ⟨fun c mem => ⟨?_, folded c mem, apart c mem⟩, again⟩
    exact of_decide_eq_true (List.all_eq_true.mp plain c mem)
  · next beyond =>
    cases Option.some.inj h
    have small : ∀ c ∈ mark ++ Punycode.encode label, Small c := by
      intro c mem
      rcases List.mem_append.mp mem with mem | mem
      · simp only [mark, List.mem_cons, List.not_mem_nil, or_false] at mem
        rcases mem with rfl | rfl | rfl | rfl <;> decide
      · rcases Punycode.mem_encode mem with ⟨mem, low⟩ | rfl | digit
        · exact ⟨low, folded c mem, apart c mem⟩
        · decide
        · exact ⟨digit.ascii, folded_of_isDigit digit, digit.ne_dot⟩
    refine ⟨small, ?_⟩
    have plain : (mark ++ Punycode.encode label).all (fun c => c.toNat < 0x80) = true :=
      List.all_eq_true.mpr fun c mem => decide_eq_true (small c mem).ascii
    have named : (mark ++ Punycode.encode label).take 4 = mark := rfl
    have spelled : (mark ++ Punycode.encode label).drop 4 = Punycode.encode label := rfl
    have some : ∃ c ∈ label, 0x80 ≤ c.toNat := by simpa using beyond
    rw [label?, if_pos plain, if_pos named, spelled]
    simp [Punycode.decode?_encode, mapM_folded? folded, flatten_map_singleton, some]

/-! ## Names -/

section Names

variable {labels : List (List Char)}

theorem eq_dot_or_small (form : ∀ label ∈ labels, ∀ c ∈ label, Small c) :
    ∀ c ∈ (labels.intersperse ['.']).flatten, c = '.' ∨ Small c := by
  intro c mem
  rcases mem_joined mem with dot | ⟨label, among, mem⟩
  · exact .inl dot
  · exact .inr (form label among c mem)

/-- Small labels that are their own ASCII form make up a name that is its
own ASCII form. -/
theorem toAscii?_joined (some : labels ≠ []) (small : ∀ label ∈ labels, ∀ c ∈ label, Small c)
    (again : ∀ label ∈ labels, label? label = .some label) :
    toAscii? (labels.intersperse ['.']).flatten = .some (labels.intersperse ['.']).flatten := by
  have apart : ∀ label ∈ labels, '.' ∉ label := fun label mem dot =>
    (small label mem '.' dot).ne_dot rfl
  have each : labels.mapM label? = .some labels :=
    mapM_of_forall₂ (List.forall₂_same.mpr again)
  have fixed : ∀ c ∈ (labels.intersperse ['.']).flatten, Folded c := fun c mem => by
    rcases eq_dot_or_small small c mem with rfl | small
    · decide
    · exact small.folded
  rw [toAscii?, mapM_folded? fixed]
  simp only [Option.bind_eq_bind, Option.bind_some, flatten_map_singleton,
    cut_joined some apart, each]
  rfl

end Names

/-- The ASCII form of a name holds dots and small characters only, and is
its own ASCII form. -/
theorem toAscii?_eq_some {name ascii : List Char} (h : toAscii? name = some ascii) :
    (∀ c ∈ ascii, c = '.' ∨ Small c) ∧ toAscii? ascii = some ascii := by
  obtain ⟨folded, folds, h⟩ := Option.bind_eq_some_iff.mp h
  obtain ⟨labels, each, h⟩ := Option.bind_eq_some_iff.mp h
  cases Option.some.inj h
  have counts : ∀ c ∈ folded.flatten, Folded c := fun c mem => by
    obtain ⟨cs, among, mem⟩ := List.mem_flatten.mp mem
    obtain ⟨d, -, is⟩ := exists_of_mem_mapM folds among
    exact folded_of_mem is mem
  have form : ∀ label ∈ labels, (∀ c ∈ label, Small c) ∧ label? label = some label := by
    intro label mem
    obtain ⟨part, among, is⟩ := exists_of_mem_mapM each mem
    refine label?_eq_some is (fun c mem => ?_) fun c mem => (mem_and_ne_of_mem_cut among mem).2
    exact counts c (mem_and_ne_of_mem_cut among mem).1
  have some : labels ≠ [] := by
    rintro rfl
    exact cut_ne_nil _ _ (List.forall₂_nil_right_iff.mp (forall₂_of_mapM each))
  have small : ∀ label ∈ labels, ∀ c ∈ label, Small c := fun label mem => (form label mem).1
  exact ⟨eq_dot_or_small small, toAscii?_joined some small fun label mem => (form label mem).2⟩

/-- No character that a domain name may not hold is in its ASCII form. -/
theorem Small.isForbidden {c : Char} (small : Small c) : isForbidden c = false := by
  have all : ∀ n < 0x80, Folded (Char.ofNat n) → Domain.isForbidden (Char.ofNat n) = false := by
    decide +kernel
  have one := all c.toNat small.ascii
  rw [Char.ofNat_toNat] at one
  exact one small.folded

end AttackMap.Url.Domain
