import AttackMap.Proofs.Text.Digits
import AttackMap.Proofs.Url.Domain
import AttackMap.Url.Host
import Mathlib.Data.List.TakeWhile

/-!
# Addresses read back

An IPv4 address is a number of thirty-two bits and an IPv6 address eight
groups of sixteen, however they were spelled; and the one text that each of
them has is read as that address again (`ipv4?_ipv4Text`, `ipv6?_ipv6Text`).

In the text of an IPv6 address one run of zeros is left out. It is found
again because it is the only place where two colons meet, and its length
because there are eight groups in all.
-/

namespace AttackMap.Url.Host

open Domain

/-! ## IPv4 -/

theorem shiftLeft_places (a i : Nat) : a <<< (8 * i) = a * 256 ^ i := by
  rw [Nat.shiftLeft_eq, Nat.pow_mul]

/-- A byte at a place. -/
theorem shiftLeft_byte {b i : Nat} (byte : b ≤ 255) (few : i < 4) :
    b <<< (8 * (3 - i)) + 256 ^ (3 - i) ≤ 256 ^ (4 - i) := by
  have place : 4 - i = (3 - i) + 1 := by omega
  have whole : (b + 1) * 256 ^ (3 - i) ≤ 256 * 256 ^ (3 - i) := Nat.mul_le_mul_right _ (by omega)
  rw [place, Nat.pow_succ, shiftLeft_places]
  rw [Nat.add_mul] at whole
  omega

/-- Bytes from a place on, added up: there is room for the places behind
them. -/
theorem foldl_bytes_le {front : List Nat} (bytes : ∀ b ∈ front, b ≤ 255) {i : Nat} (sum : Nat)
    (few : i + front.length ≤ 4) :
    (front.zipIdx i).foldl (fun sum x => sum + x.1 <<< (8 * (3 - x.2))) sum +
      256 ^ (4 - (i + front.length)) ≤ sum + 256 ^ (4 - i) := by
  induction front generalizing i sum with
  | nil => rfl
  | cons b front ih =>
    obtain ⟨byte, bytes⟩ := List.forall_mem_cons.mp bytes
    rw [List.length_cons] at few
    have here := shiftLeft_byte (i := i) byte (by omega)
    have rest := ih bytes (i := i + 1) (sum + b <<< (8 * (3 - i))) (by omega)
    have place : 4 - (i + 1) = 3 - i := by omega
    have places : i + (b :: front).length = i + 1 + front.length := by
      rw [List.length_cons]
      omega
    rw [place] at rest
    rw [List.zipIdx_cons, List.foldl_cons, places]
    dsimp only
    omega

theorem ipv4?_lt {name : List Char} {n : Nat} (h : ipv4? name = some n) : n < 256 ^ 4 := by
  obtain ⟨numbers, -, h⟩ := Option.bind_eq_some_iff.mp h
  obtain ⟨last, -, h⟩ := Option.bind_eq_some_iff.mp h
  dsimp only at h
  generalize numbers.dropLast = front at h
  split at h
  · cases h
  · next fits =>
    simp only [not_or, Nat.not_lt, Nat.not_le, Bool.not_eq_true, List.any_eq_false,
      decide_eq_true_eq] at fits
    obtain ⟨few, bytes, rest⟩ := fits
    have sum := foldl_bytes_le bytes (i := 0) last (by omega)
    have room : 256 <<< (8 * (3 - front.length)) = 256 ^ (4 - (0 + front.length)) := by
      have place : 4 - (0 + front.length) = (3 - front.length) + 1 := by omega
      rw [place, shiftLeft_places, Nat.pow_succ, Nat.mul_comm]
    rw [room] at rest
    rw [← Option.some.inj h]
    exact Nat.lt_of_add_lt_add_right (sum.trans_lt (Nat.add_comm .. ▸ Nat.add_lt_add_left rest _))

theorem ipv4Number?_decimal : ∀ b < 256, ipv4Number? (Text.decimal b) = some b := by
  decide +kernel

/-- The four bytes of an address. -/
def bytes (n : Nat) : List Nat :=
  [(n >>> 24) % 256, (n >>> 16) % 256, (n >>> 8) % 256, n % 256]

theorem ipv4Text_eq (n : Nat) :
    ipv4Text n = (((bytes n).map Text.decimal).intersperse ['.']).flatten := by
  simp [ipv4Text, bytes]

theorem lt_of_mem_bytes {n b : Nat} (mem : b ∈ bytes n) : b < 256 := by
  simp only [bytes, List.mem_cons, List.not_mem_nil, or_false] at mem
  omega

theorem dot_not_mem_decimal (n : Nat) : '.' ∉ Text.decimal n := fun mem => by
  cases Text.isDigit_of_mem_decimal mem

theorem parts_ipv4Text (n : Nat) : parts (ipv4Text n) = (bytes n).map Text.decimal := by
  have labels : cut '.' (ipv4Text n) = (bytes n).map Text.decimal := by
    rw [ipv4Text_eq, cut_joined (by simp [bytes])]
    intro part mem
    obtain ⟨b, -, rfl⟩ := List.mem_map.mp mem
    exact dot_not_mem_decimal b
  have filled : Text.decimal (n % 256) ≠ [] := Nat.toDigits_ne_nil
  rw [parts, labels, if_neg]
  rintro ⟨-, last⟩
  exact filled (Option.some.inj last)

theorem endsInNumber_ipv4Text (n : Nat) : endsInNumber (ipv4Text n) = true := by
  have last : ((bytes n).map Text.decimal).getLast? = some (Text.decimal (n % 256)) := rfl
  have filled : Text.decimal (n % 256) ≠ [] := Nat.toDigits_ne_nil
  have digits : (Text.decimal (n % 256)).all (fun c => (Text.decimalDigit? c).isSome) = true :=
    List.all_eq_true.mpr fun c mem => Text.isSome_decimalDigit?_of_mem mem
  rw [endsInNumber, parts_ipv4Text, last]
  simp [digits, filled]

/-- An address is read from its text. -/
theorem ipv4?_ipv4Text {n : Nat} (small : n < 256 ^ 4) : ipv4? (ipv4Text n) = some n := by
  have numbers : ((bytes n).map Text.decimal).mapM ipv4Number? = some (bytes n) := by
    refine mapM_of_forall₂ ?_
    rw [List.forall₂_map_left_iff, List.forall₂_same]
    exact fun b mem => ipv4Number?_decimal b (lt_of_mem_bytes mem)
  rw [ipv4?, parts_ipv4Text, numbers]
  simp [bytes, Nat.shiftLeft_eq, Nat.shiftRight_eq_div_pow]
  omega

/-! ## The groups of an IPv6 address -/

theorem ipv4Tail?_lt {cs : List Char} {gs : List Nat} (h : ipv4Tail? cs = some gs) :
    ∀ g ∈ gs, g < 16 ^ 4 := by
  obtain ⟨numbers, each, h⟩ := Option.bind_eq_some_iff.mp h
  have bytes : ∀ n ∈ numbers, n ≤ 255 := fun n mem => by
    obtain ⟨part, -, is⟩ := exists_of_mem_mapM each mem
    split at is
    · cases is
    · obtain ⟨m, -, is⟩ := Option.bind_eq_some_iff.mp is
      split at is
      · next small => rwa [← Option.some.inj is]
      · cases is
  split at h
  · next a b c d =>
    have all : a ≤ 255 ∧ b ≤ 255 ∧ c ≤ 255 ∧ d ≤ 255 := by simpa using bytes
    rw [← Option.some.inj h]
    simp
    omega
  · cases h

theorem number?_group_lt {part : List Char} {g : Nat} (few : ¬ (part.isEmpty ∨ 4 < part.length))
    (h : Text.number? 16 part = some g) : g < 16 ^ 4 :=
  (Text.lt_of_number? h).trans_le (Nat.pow_le_pow_right (by decide) (by omega))

theorem groups?_lt {parts : List (List Char)} {gs : List Nat} (h : groups? parts = some gs) :
    ∀ g ∈ gs, g < 16 ^ 4 := by
  induction parts generalizing gs with
  | nil =>
    cases Option.some.inj h
    exact List.forall_mem_nil _
  | cons part rest ih =>
    cases rest with
    | nil =>
      rw [groups?] at h
      split at h
      · exact ipv4Tail?_lt h
      · split at h
        · cases h
        · next few =>
          obtain ⟨g, number, rfl⟩ := Option.map_eq_some_iff.mp h
          rw [List.forall_mem_singleton]
          exact number?_group_lt few number
    | cons next rest =>
      rw [groups?] at h
      · dsimp only at h
        split at h
        · cases h
        · next few =>
          obtain ⟨g, number, h⟩ := Option.bind_eq_some_iff.mp h
          obtain ⟨gs, others, h⟩ := Option.bind_eq_some_iff.mp h
          rw [← Option.some.inj h]
          exact List.forall_mem_cons.mpr ⟨number?_group_lt few number, ih others⟩
      · exact List.cons_ne_nil _ _

theorem side?_lt {cs : List Char} {gs : List Nat} (h : side? cs = some gs) :
    ∀ g ∈ gs, g < 16 ^ 4 := by
  rw [side?] at h
  split at h
  · cases Option.some.inj h
    exact List.forall_mem_nil _
  · exact groups?_lt h

/-- An IPv6 address is eight groups of sixteen bits. -/
theorem ipv6?_groups {cs : List Char} {gs : List Nat} (h : ipv6? cs = some gs) :
    gs.length = 8 ∧ ∀ g ∈ gs, g < 16 ^ 4 := by
  unfold ipv6? at h
  split at h
  · obtain ⟨groups, side, h⟩ := Option.bind_eq_some_iff.mp h
    split at h
    · next eight =>
      cases Option.some.inj h
      exact ⟨eight, side?_lt side⟩
    · cases h
  · obtain ⟨left, before, h⟩ := Option.bind_eq_some_iff.mp h
    obtain ⟨right, after, h⟩ := Option.bind_eq_some_iff.mp h
    split at h
    · cases h
    · next fits =>
      cases Option.some.inj h
      constructor
      · simp
        omega
      · simp only [List.forall_mem_append, List.mem_replicate]
        refine ⟨⟨side?_lt before, ?_⟩, side?_lt after⟩
        rintro g ⟨-, rfl⟩
        decide

/-! ## The text of an IPv6 address -/

/-- A character of groups. -/
def IsHex (c : Char) : Prop := ∃ d < 16, c = d.digitChar

theorem isHex_of_mem_toDigits {g : Nat} {c : Char} (mem : c ∈ Nat.toDigits 16 g) : IsHex c :=
  Text.mem_of_mem_toDigits mem

theorem IsHex.ne_colon {c : Char} (is : IsHex c) : c ≠ ':' := by
  obtain ⟨d, small, rfl⟩ := is
  have all : ∀ d < 16, d.digitChar ≠ ':' := by decide
  exact all d small

theorem IsHex.ne_dot {c : Char} (is : IsHex c) : c ≠ '.' := by
  obtain ⟨d, small, rfl⟩ := is
  have all : ∀ d < 16, d.digitChar ≠ '.' := by decide
  exact all d small

theorem colon_not_mem_toDigits (g : Nat) : ':' ∉ Nat.toDigits 16 g := fun mem =>
  (isHex_of_mem_toDigits mem).ne_colon rfl

theorem dot_not_mem_toDigits (g : Nat) : '.' ∉ Nat.toDigits 16 g := fun mem =>
  (isHex_of_mem_toDigits mem).ne_dot rfl

theorem isHex_of_mem_joined {gs : List Nat} {c : Char} (mem : c ∈ joined gs) :
    c = ':' ∨ IsHex c := by
  rcases mem_joined mem with colon | ⟨part, among, mem⟩
  · exact .inl colon
  · obtain ⟨g, -, rfl⟩ := List.mem_map.mp among
    exact .inr (isHex_of_mem_toDigits mem)

theorem isHex_of_mem_ipv6Text {gs : List Nat} {c : Char} (mem : c ∈ ipv6Text gs) :
    c = ':' ∨ IsHex c := by
  unfold ipv6Text at mem
  dsimp only at mem
  split at mem
  · exact isHex_of_mem_joined mem
  · simp only [List.mem_append] at mem
    rcases mem with (mem | mem) | mem
    · exact isHex_of_mem_joined mem
    · exact .inl (by simpa using mem)
    · exact isHex_of_mem_joined mem

theorem groups?_map {gs : List Nat} (small : ∀ g ∈ gs, g < 16 ^ 4) :
    groups? (gs.map (Nat.toDigits 16)) = some gs := by
  induction gs with
  | nil => rfl
  | cons g rest ih =>
    obtain ⟨here, small⟩ := List.forall_mem_cons.mp small
    have number : Text.number? 16 (Nat.toDigits 16 g) = some g :=
      Text.number?_toDigits (by decide) (by decide) g
    have few : ¬ ((Nat.toDigits 16 g).isEmpty ∨ 4 < (Nat.toDigits 16 g).length) := by
      rw [not_or, List.isEmpty_iff, Nat.not_lt, Nat.length_toDigits_le_iff (by decide) (by decide)]
      exact ⟨Nat.toDigits_ne_nil, here⟩
    cases rest with
    | nil =>
      rw [List.map_cons, List.map_nil, groups?, if_neg, if_neg few, number]
      · rfl
      · rw [List.contains_iff_mem]
        exact dot_not_mem_toDigits g
    | cons next rest =>
      rw [List.map_cons, List.map_cons, groups?, if_neg few, number, ← List.map_cons, ih small]
      · rfl
      · exact List.cons_ne_nil _ _

theorem joined_cons_cons (g next : Nat) (rest : List Nat) :
    joined (g :: next :: rest) = Nat.toDigits 16 g ++ ':' :: joined (next :: rest) := by
  simp [joined]

/-- Groups begin with a digit. -/
theorem exists_joined_eq_cons (g : Nat) (rest : List Nat) :
    ∃ c cs, joined (g :: rest) = c :: cs ∧ IsHex c := by
  obtain ⟨c, cs, digits⟩ := List.exists_cons_of_ne_nil (Nat.toDigits_ne_nil (b := 16) (n := g))
  have hex : IsHex c := isHex_of_mem_toDigits (digits ▸ List.mem_cons_self)
  cases rest with
  | nil => exact ⟨c, cs, by simp [joined, digits], hex⟩
  | cons next rest => exact ⟨c, _, by rw [joined_cons_cons, digits, List.cons_append], hex⟩

theorem side?_joined {gs : List Nat} (small : ∀ g ∈ gs, g < 16 ^ 4) :
    side? (joined gs) = some gs := by
  cases gs with
  | nil => rfl
  | cons g rest =>
    have cuts : cut ':' (joined (g :: rest)) = (g :: rest).map (Nat.toDigits 16) := by
      refine cut_joined (List.cons_ne_nil _ _) fun part mem => ?_
      obtain ⟨g, -, rfl⟩ := List.mem_map.mp mem
      exact colon_not_mem_toDigits g
    obtain ⟨c, cs, form, -⟩ := exists_joined_eq_cons g rest
    rw [side?, cuts, groups?_map small, form]
    rfl

/-! ## Where two colons meet -/

theorem splitGap_append {front : List Char} (free : ':' ∉ front) (rest : List Char) :
    splitGap (front ++ rest) = (splitGap rest).map fun p => (front ++ p.1, p.2) := by
  induction front with
  | nil => simp
  | cons c front ih =>
    rw [List.mem_cons, not_or] at free
    rw [List.cons_append, splitGap, ih free.2, Option.map_map]
    · rfl
    · rintro r rfl
      exact absurd rfl free.1

/-- A colon that meets a digit is passed over. -/
theorem splitGap_colon {c : Char} (hex : IsHex c) (cs : List Char) :
    splitGap (':' :: c :: cs) = (splitGap (c :: cs)).map fun p => (':' :: p.1, p.2) := by
  rw [splitGap]
  rintro r - same
  exact hex.ne_colon (List.cons.inj same).1

/-- Groups have no gap between them. -/
theorem splitGap_joined (gs : List Nat) (rest : List Char) :
    splitGap (joined gs ++ rest) = (splitGap rest).map fun p => (joined gs ++ p.1, p.2) := by
  match gs with
  | [] => simp [joined]
  | [g] =>
    have one : joined [g] = Nat.toDigits 16 g := by simp [joined]
    rw [one, splitGap_append (colon_not_mem_toDigits g)]
  | g :: next :: others =>
    have ih := splitGap_joined (next :: others) rest
    obtain ⟨c, cs, form, hex⟩ := exists_joined_eq_cons next others
    rw [form, List.cons_append] at ih
    rw [joined_cons_cons, List.append_assoc, splitGap_append (colon_not_mem_toDigits g),
      List.cons_append, form, List.cons_append, splitGap_colon hex, ih]
    simp [Function.comp_def]

/-! ## The longest run of zeros -/

/-- How many zeros stand from a place on. -/
def zeros (groups : List Nat) (i : Nat) : Nat := ((groups.drop i).takeWhile (· = 0)).length

theorem longestRun_le_zeros (groups : List Nat) :
    (longestRun groups).2 ≤ zeros groups (longestRun groups).1 := by
  have keeps (places : List Nat) (best : Nat × Nat) (fits : best.2 ≤ zeros groups best.1) :
      (places.foldl (fun best i => if best.2 < zeros groups i then (i, zeros groups i) else best)
        best).2 ≤ zeros groups (places.foldl (fun best i =>
          if best.2 < zeros groups i then (i, zeros groups i) else best) best).1 := by
    induction places generalizing best with
    | nil => exact fits
    | cons i places ih =>
      refine ih _ ?_
      dsimp only
      split
      · exact Nat.le_refl _
      · exact fits
  exact keeps _ (0, 0) (Nat.zero_le _)

/-- The groups around a run of zeros and the run make up all groups. -/
theorem take_append_zeros {groups : List Nat} {start length : Nat}
    (run : length ≤ zeros groups start) :
    groups.take start ++ List.replicate length 0 ++ groups.drop (start + length) = groups := by
  have zero : (groups.drop start).take length = List.replicate length 0 := by
    rw [List.eq_replicate_iff]
    constructor
    · have most := (List.takeWhile_prefix (l := groups.drop start) (· = 0)).length_le
      rw [List.length_take]
      exact Nat.min_eq_left (run.trans most)
    · intro g mem
      rw [← List.takeWhile_append_dropWhile (p := (· = 0)) (l := groups.drop start),
        List.take_append_of_le_length run] at mem
      have zero := List.mem_takeWhile_imp (List.mem_of_mem_take mem)
      exact of_decide_eq_true zero
  rw [← zero, List.append_assoc, ← List.drop_drop, List.take_append_drop, List.take_append_drop]

/-- An address is read from its text. -/
theorem ipv6?_ipv6Text {gs : List Nat} (eight : gs.length = 8) (small : ∀ g ∈ gs, g < 16 ^ 4) :
    ipv6? (ipv6Text gs) = some gs := by
  have run := longestRun_le_zeros gs
  unfold ipv6Text
  dsimp only
  generalize (longestRun gs).1 = start at run ⊢
  generalize (longestRun gs).2 = length at run ⊢
  split
  · have noGap := splitGap_joined gs []
    rw [List.append_nil, splitGap, Option.map_none] at noGap
    rw [ipv6?, noGap]
    simp [side?_joined small, eight]
  · next two =>
    have whole := take_append_zeros run
    have most : zeros gs start ≤ 8 - start := by
      rw [← eight, ← List.length_drop]
      exact (List.takeWhile_prefix _).length_le
    have gap := splitGap_joined (gs.take start) (':' :: ':' :: joined (gs.drop (start + length)))
    rw [splitGap, Option.map_some, List.append_nil] at gap
    have before : side? (joined (gs.take start)) = some (gs.take start) :=
      side?_joined fun g mem => small g (List.mem_of_mem_take mem)
    have after : side? (joined (gs.drop (start + length))) = some (gs.drop (start + length)) :=
      side?_joined fun g mem => small g (List.mem_of_mem_drop mem)
    have noDot : (joined (gs.take start)).contains '.' = false := by
      rw [← Bool.not_eq_true, List.contains_iff_mem]
      intro mem
      rcases isHex_of_mem_joined mem with colon | hex
      · cases colon
      · exact hex.ne_dot rfl
    have left : (gs.take start).length = start := by
      rw [List.length_take, eight]
      omega
    have right : (gs.drop (start + length)).length = 8 - (start + length) := by
      rw [List.length_drop, eight]
    have between : 8 - start - (8 - (start + length)) = length := by omega
    rw [List.append_assoc, List.cons_append, List.singleton_append, ipv6?, gap]
    simp only [Option.bind_eq_bind, before, after, Option.bind_some, noDot, left, right, between]
    rw [if_neg (by simp; omega), whole]

end AttackMap.Url.Host
