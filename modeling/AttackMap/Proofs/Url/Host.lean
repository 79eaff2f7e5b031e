import AttackMap.Proofs.Url.Address
import AttackMap.Proofs.Url.Percent

/-!
# Hosts read back

A host in a special scheme is a name in its one form, or an address
(`Sound`). Its text is read as that host again (`ofSpecial_text`): the form
of a name is its own, no name ends in a number, and the texts of addresses
are.
-/

namespace AttackMap.Url.Host

open Domain

/-- A host as reading gives it. -/
inductive Sound : Host → Prop where
  | name (s : String) (small : ∀ c ∈ s.toList, c = '.' ∨ Small c)
      (form : toAscii? s.toList = some s.toList) (filled : s.toList ≠ [])
      (named : endsInNumber s.toList = false) : Sound (.name s)
  | ipv4 (n : Nat) (small : n < 256 ^ 4) : Sound (.ipv4 n)
  | ipv6 (groups : List Nat) (eight : groups.length = 8) (small : ∀ g ∈ groups, g < 16 ^ 4) :
    Sound (.ipv6 groups)

theorem sound_of_bracketed {r : List Char} {h : Host} (is : bracketed r = .ok h) : h.Sound := by
  unfold bracketed at is
  split at is
  · cases read : ipv6? r.dropLast with
    | none =>
      rw [read] at is
      cases is
    | some groups =>
      rw [read] at is
      cases is
      obtain ⟨eight, small⟩ := ipv6?_groups read
      exact .ipv6 groups eight small
  · cases is

/-- What is read is a sound host. -/
theorem sound_of_ofSpecial {cs : List Char} {h : Host} (is : ofSpecial cs = .ok h) : h.Sound := by
  unfold ofSpecial at is
  split at is
  · exact sound_of_bracketed is
  · dsimp only at is
    split at is
    · cases is
    · cases is
    · next ascii filled form =>
      obtain ⟨text, -, form⟩ := Option.bind_eq_some_iff.mp form
      obtain ⟨small, again⟩ := toAscii?_eq_some form
      split at is
      · cases read : ipv4? ascii with
        | none =>
          rw [read] at is
          cases is
        | some n =>
          rw [read] at is
          cases is
          exact .ipv4 n (ipv4?_lt read)
      · next named =>
        cases is
        have same : (String.ofList ascii).toList = ascii := String.toList_ofList
        exact .name _ (by rwa [same]) (by rwa [same]) (by rw [same]; exact filled)
          (by rw [same]; exact Bool.not_eq_true _ |>.mp named)

/-! ## The text of a host -/

theorem not_mem_of_isForbidden {cs : List Char} (small : ∀ c ∈ cs, c = '.' ∨ Small c) {c : Char}
    (forbidden : isForbidden c = true) : c ∉ cs := by
  intro mem
  rcases small c mem with rfl | small
  · cases forbidden
  · rw [small.isForbidden] at forbidden
    cases forbidden

/-- How a name in its one form is read. -/
theorem ofSpecial_of_form {cs : List Char} (small : ∀ c ∈ cs, c = '.' ∨ Small c)
    (form : toAscii? cs = some cs) (filled : cs ≠ []) :
    ofSpecial cs = if endsInNumber cs then (ipv4? cs).elim (.error .ipv4) (.ok ∘ .ipv4)
      else .ok (.name (String.ofList cs)) := by
  have bytes := fromUTF8?_percentDecode (not_mem_of_isForbidden small (c := '%') rfl)
  unfold ofSpecial
  split
  · exact absurd List.mem_cons_self (not_mem_of_isForbidden small rfl)
  · simp only [bytes, Option.bind_some, String.toList_ofList, form]

theorem small_of_isDigit {c : Char} (digit : c.isDigit = true) : Small c := by
  obtain ⟨low, high⟩ : 48 ≤ c.toNat ∧ c.toNat ≤ 57 := Char.isDigit_iff_toNat.mp digit
  have all : ∀ d < 10, Small (Char.ofNat (48 + d)) := by decide
  have small := all (c.toNat - 48) (by omega)
  rwa [Nat.add_sub_cancel' low, Char.ofNat_toNat] at small

/-- A label of digits is its own ASCII form. -/
theorem label?_decimal (n : Nat) : label? (Text.decimal n) = some (Text.decimal n) := by
  have small : ∀ c ∈ Text.decimal n, Small c := fun c mem =>
    small_of_isDigit (Text.isDigit_of_mem_decimal mem)
  have plain : (Text.decimal n).all (fun c => c.toNat < 0x80) = true :=
    List.all_eq_true.mpr fun c mem => decide_eq_true (small c mem).ascii
  have unmarked : (Text.decimal n).take 4 ≠ mark := fun marked => by
    have first : 'x' ∈ (Text.decimal n).take 4 := by
      rw [marked]
      decide
    cases Text.isDigit_of_mem_decimal (List.mem_of_mem_take first)
  rw [label?, if_pos plain, if_neg unmarked]

theorem ipv4Text_form (n : Nat) : (∀ c ∈ ipv4Text n, c = '.' ∨ Small c) ∧
    toAscii? (ipv4Text n) = some (ipv4Text n) := by
  have small : ∀ label ∈ (bytes n).map Text.decimal, ∀ c ∈ label, Small c := by
    intro label mem c among
    obtain ⟨b, -, rfl⟩ := List.mem_map.mp mem
    exact small_of_isDigit (Text.isDigit_of_mem_decimal among)
  rw [ipv4Text_eq]
  refine ⟨eq_dot_or_small small, toAscii?_joined (by simp [bytes]) small fun label mem => ?_⟩
  obtain ⟨b, -, rfl⟩ := List.mem_map.mp mem
  exact label?_decimal b

theorem ipv4Text_ne_nil (n : Nat) : ipv4Text n ≠ [] := by simp [ipv4Text]

/-- A sound host is read from its text. -/
theorem ofSpecial_text {h : Host} (sound : h.Sound) : ofSpecial h.text = .ok h := by
  cases sound with
  | name s small form filled named =>
    rw [text, ofSpecial_of_form small form filled, named]
    simp
  | ipv4 n small =>
    obtain ⟨chars, form⟩ := ipv4Text_form n
    rw [text, ofSpecial_of_form chars form (ipv4Text_ne_nil n), endsInNumber_ipv4Text,
      ipv4?_ipv4Text small]
    rfl
  | ipv6 groups eight small =>
    rw [text, List.cons_append, ofSpecial, bracketed, List.getLast?_concat, if_pos rfl,
      List.dropLast_concat, ipv6?_ipv6Text eight small]
    rfl

end AttackMap.Url.Host
