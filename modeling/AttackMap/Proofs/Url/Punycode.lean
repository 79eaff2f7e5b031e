import AttackMap.Url.Punycode
import Mathlib.Data.List.Basic
import Mathlib.Tactic.Ring

/-!
# A spelled label read back

The writer of a spelling and its reader go through the same positions: all
places of the label for one character, then all places for the next
character, and so on. The writer counts the positions it passes, up to each
place where it writes a character; the reader gets that count and divides it
by the number of places to know which character stands where.

So what both have in common is a position: a bound on the characters placed
so far, and a spot in the label. `Reaches` says how far the reader gets with
what the writer has written, `Writer.Agrees` that the writer's count leads
from there to its own position. Both are kept by every character passed, and
at the end the label is whole (`decode?_encode`).
-/

namespace AttackMap.Url.Punycode

/-! ## Digits -/

/-- The characters that distances are written with. -/
def IsDigit (c : Char) : Prop := ∃ d < 36, c = digit d

theorem value?_digit : ∀ d < 36, value? (digit d) = some d := by decide

theorem IsDigit.ne_dash {c : Char} (is : IsDigit c) : c ≠ '-' := by
  obtain ⟨d, small, rfl⟩ := is
  have all : ∀ d < 36, digit d ≠ '-' := by decide
  exact all d small

theorem IsDigit.ne_dot {c : Char} (is : IsDigit c) : c ≠ '.' := by
  obtain ⟨d, small, rfl⟩ := is
  have all : ∀ d < 36, digit d ≠ '.' := by decide
  exact all d small

theorem IsDigit.ascii {c : Char} (is : IsDigit c) : c.toNat < 0x80 := by
  obtain ⟨d, small, rfl⟩ := is
  have all : ∀ d < 36, (digit d).toNat < 0x80 := by decide
  exact all d small

theorem threshold_pos (k bias : Nat) : 1 ≤ threshold k bias := Nat.le_max_left ..

theorem threshold_le (k bias : Nat) : threshold k bias ≤ 26 := by
  unfold threshold
  omega

theorem distance_ne_nil (fuel bias k q : Nat) : distance (fuel + 1) bias k q ≠ [] := by
  unfold distance
  dsimp only
  split <;> exact List.cons_ne_nil _ _

theorem isDigit_of_mem_distance {fuel bias k q : Nat} {c : Char}
    (mem : c ∈ distance fuel bias k q) : IsDigit c := by
  induction fuel generalizing k q with
  | zero => cases mem
  | succ fuel ih =>
    have low := threshold_pos k bias
    have high := threshold_le k bias
    unfold distance at mem
    dsimp only at mem
    split at mem
    · exact ⟨q, by omega, List.mem_singleton.mp mem⟩
    · rcases List.mem_cons.mp mem with rfl | mem
      · have rest := Nat.mod_lt (q - threshold k bias) (y := 36 - threshold k bias) (by omega)
        exact ⟨_, by omega, rfl⟩
      · exact ih mem

/-- The digits of a distance are read back to its value. -/
theorem distance?_distance {fuel q : Nat} (enough : q < fuel) (bias k weight sum : Nat)
    (rest : List Char) :
    distance? bias (distance fuel bias k q ++ rest) k weight sum = some (sum + q * weight, rest) := by
  induction fuel generalizing q k weight sum with
  | zero => cases enough
  | succ fuel ih =>
    have low := threshold_pos k bias
    have high := threshold_le k bias
    unfold distance
    dsimp only
    by_cases last : q < threshold k bias
    · rw [if_pos last, List.singleton_append, distance?, value?_digit q (by omega)]
      simp [last]
    · generalize form : threshold k bias = t at low high last
      have small := Nat.mod_lt (q - t) (y := 36 - t) (by omega)
      have shrinks : (q - t) / (36 - t) ≤ q - t := Nat.div_le_self ..
      rw [if_neg last, List.cons_append, distance?, value?_digit _ (by omega), form]
      simp only [Option.bind_eq_bind, Option.bind_some]
      rw [if_neg (by omega), ih (by omega)]
      -- the digit and the digits behind it add up
      have parts := Nat.mod_add_div (q - t) (36 - t)
      have whole : q = t + (q - t) % (36 - t) + (36 - t) * ((q - t) / (36 - t)) := by omega
      congr 2
      conv => rhs; rw [whole]
      ring

/-! ## How far the reader gets -/

theorem place_nil (fuel : Nat) (label : List Char) (n i bias : Nat) (first : Bool) :
    place fuel [] label n i bias first = some label := by
  cases fuel <;> rfl

/-- A distance that leads to a character places it. -/
theorem place_of_distance? {d c : Char} {ds rest label : List Char} {n i bias q : Nat}
    (read : distance? bias (d :: ds) 36 1 0 = some (q, rest))
    (next : n + (i + q) / (label.length + 1) = c.toNat) (fuel : Nat) (first : Bool) :
    place (fuel + 1) (d :: ds) label n i bias first =
      place fuel rest (label.take ((i + q) % (label.length + 1)) ++
          c :: label.drop ((i + q) % (label.length + 1)))
        c.toNat ((i + q) % (label.length + 1) + 1) (adapt q (label.length + 1) first) false := by
  have valid : (n + (i + q) / (label.length + 1)).isValidChar := next ▸ c.valid
  have back : Char.ofNatAux _ valid = c :=
    (dif_pos valid).symm.trans ((congrArg Char.ofNat next).trans c.ofNat_toNat)
  have step : place (fuel + 1) (d :: ds) label n i bias first =
      (distance? bias (d :: ds) 36 1 0).bind fun x =>
        if h : (n + (i + x.1) / (label.length + 1)).isValidChar then
          place fuel x.2 (label.take ((i + x.1) % (label.length + 1)) ++
              Char.ofNatAux (n + (i + x.1) / (label.length + 1)) h ::
                label.drop ((i + x.1) % (label.length + 1)))
            (n + (i + x.1) / (label.length + 1)) ((i + x.1) % (label.length + 1) + 1)
            (adapt x.1 (label.length + 1) first) false
        else none := rfl
  rw [step, read, Option.bind_some]
  dsimp only
  rw [dif_pos valid, back, next]

/-- With what is written the reader gets from the plain characters to a
label: the last character it has placed is `n`, and it looks on from `i`. -/
structure Reaches (plain written label : List Char) (n i bias : Nat) : Prop where
  grown : plain.length ≤ label.length
  digits : ∀ c ∈ written, IsDigit c
  reads : ∃ k ≤ written.length, ∀ rest fuel,
    place (fuel + k) (written ++ rest) plain 0x80 0 72 true =
      place fuel rest label n i bias (label.length = plain.length)

theorem Reaches.start (plain : List Char) : Reaches plain [] plain 0x80 0 72 :=
  ⟨Nat.le_refl _, List.forall_mem_nil _, 0, Nat.le_refl _, fun rest fuel => by simp⟩

/-- One more distance takes the reader to one more character. -/
theorem Reaches.next {plain written label : List Char} {n i bias q spot : Nat} {c : Char}
    (reached : Reaches plain written label n i bias) (above : n ≤ c.toNat)
    (inside : spot ≤ label.length)
    (position : i + q = (c.toNat - n) * (label.length + 1) + spot) :
    Reaches plain (written ++ distance (q + 1) bias 36 q)
      (label.take spot ++ c :: label.drop spot) c.toNat (spot + 1)
      (adapt q (label.length + 1) (label.length = plain.length)) := by
  have length : (label.take spot ++ c :: label.drop spot).length = label.length + 1 := by
    rw [List.length_append, List.length_cons, List.length_take, List.length_drop]
    omega
  have some_digit := List.length_pos_of_ne_nil (distance_ne_nil q bias 36 q)
  obtain ⟨k, few, reads⟩ := reached.reads
  have turns : (i + q) / (label.length + 1) = c.toNat - n := by
    rw [position, Nat.mul_comm, Nat.mul_add_div (by omega), Nat.div_eq_of_lt (by omega), Nat.add_zero]
  have place_of_turn : (i + q) % (label.length + 1) = spot := by
    rw [position, Nat.mul_comm, Nat.mul_add_mod, Nat.mod_eq_of_lt (by omega)]
  have later : decide (label.length + 1 = plain.length) = false :=
    decide_eq_false (by have := reached.grown; omega)
  refine ⟨by have := reached.grown; omega, ?_, k + 1, ?_, fun rest fuel => ?_⟩
  · exact List.forall_mem_append.mpr ⟨reached.digits, fun _ => isDigit_of_mem_distance⟩
  · rw [List.length_append]
    omega
  · obtain ⟨d, ds, form⟩ := List.exists_cons_of_ne_nil (distance_ne_nil q bias 36 q)
    have read := distance?_distance (Nat.lt_succ_self q) bias 36 1 0 rest
    rw [form, List.cons_append, Nat.zero_add, Nat.mul_one] at read
    have next : n + (i + q) / (label.length + 1) = c.toNat := by
      rw [turns, Nat.add_sub_cancel' above]
    rw [List.append_assoc, ← Nat.add_assoc, Nat.add_right_comm, reads, form, List.cons_append,
      place_of_distance? read next, place_of_turn, length, later]

/-! ## What the writer counts -/

/-- The count of the writer leads from where the reader has got to a
position: a bound of the characters placed and a spot in the label. -/
structure Writer.Agrees (before plain label : List Char) (bound spot : Nat) (w : Writer) :
    Prop where
  placed : w.placed = label.length
  reads : ∃ written n i, w.text = before ++ written ∧ Reaches plain written label n i w.bias ∧
    n ≤ bound ∧ i + w.delta = (bound - n) * (label.length + 1) + spot

/-- The characters placed once the characters `m` have been placed in the
front of a label, and all below `m` behind it. -/
def standing (m : Nat) (front back : List Char) : List Char :=
  front.filter (·.toNat ≤ m) ++ back.filter (·.toNat < m)

variable {before plain : List Char}

/-- The writer going on to the next character and passing the label. -/
def Writer.round (basic : Nat) (label : List Char) (sofar : Nat × Writer) (next : Nat) :
    Nat × Writer :=
  let w := { sofar.2 with delta := sofar.2.delta + (next - sofar.1) * (sofar.2.placed + 1) }
  let w := label.foldl (Writer.pass basic next) w
  (next + 1, { w with delta := w.delta + 1 })

namespace Writer.Agrees

variable {w : Writer} {m : Nat} {front : List Char}

/-- One character passed. -/
theorem pass {c : Char} {back : List Char}
    (agrees : w.Agrees before plain (standing m front (c :: back)) m
      (front.filter (·.toNat ≤ m)).length) :
    (w.pass plain.length m c).Agrees before plain (standing m (front ++ [c]) back) m
      ((front ++ [c]).filter (·.toNat ≤ m)).length := by
  obtain ⟨count, written, n, i, text, reaches, above, position⟩ := agrees
  unfold Writer.pass
  rcases Nat.lt_trichotomy c.toNat m with below | rfl | beyond
  · -- a character placed before is one more position
    have same : standing m (front ++ [c]) back = standing m front (c :: back) := by
      simp [standing, below, Nat.le_of_lt below]
    rw [if_pos below, same, List.filter_append, List.length_append]
    refine ⟨count, written, n, i, text, reaches, above, ?_⟩
    simp only [List.filter_cons, decide_eq_true (Nat.le_of_lt below), if_true, List.filter_nil,
      List.length_singleton]
    omega
  · -- a character of this round is written
    have same : standing c.toNat (front ++ [c]) back =
        (standing c.toNat front (c :: back)).take (front.filter (·.toNat ≤ c.toNat)).length ++
          c :: (standing c.toNat front (c :: back)).drop
            (front.filter (·.toNat ≤ c.toNat)).length := by
      simp [standing]
    have inside : (front.filter (·.toNat ≤ c.toNat)).length ≤
        (standing c.toNat front (c :: back)).length := by simp [standing]
    have next := reaches.next above inside position
    rw [← same, ← count] at next
    have spot : ((front ++ [c]).filter (·.toNat ≤ c.toNat)).length =
        (front.filter (·.toNat ≤ c.toNat)).length + 1 := by simp
    have longer : (standing c.toNat (front ++ [c]) back).length =
        (standing c.toNat front (c :: back)).length + 1 := by
      simp [standing]
      omega
    rw [if_neg (Nat.lt_irrefl _), if_pos rfl, spot]
    refine ⟨?_, _, _, _, ?_, next, Nat.le_refl _, ?_⟩
    · rw [longer, count]
    · rw [text, List.append_assoc]
    · rw [Nat.sub_self, Nat.zero_mul, Nat.zero_add, Nat.add_zero]
  · -- a character of a later round is passed over
    have same : standing m (front ++ [c]) back = standing m front (c :: back) := by
      simp [standing, Nat.not_lt.mpr (Nat.le_of_lt beyond), Nat.not_le.mpr beyond]
    rw [if_neg (by omega), if_neg (by omega), same, List.filter_append, List.length_append]
    refine ⟨count, written, n, i, text, reaches, above, ?_⟩
    simp [position, Nat.not_le.mpr beyond]

/-- All characters behind a spot passed. -/
theorem passes {back : List Char}
    (agrees : w.Agrees before plain (standing m front back) m
      (front.filter (·.toNat ≤ m)).length) :
    (back.foldl (Writer.pass plain.length m) w).Agrees before plain (standing m (front ++ back) [])
      m ((front ++ back).filter (·.toNat ≤ m)).length := by
  induction back generalizing front w with
  | nil => rwa [List.append_nil]
  | cons c back ih =>
    have rest := ih agrees.pass
    rwa [List.append_assoc] at rest

/-- One round: the count goes on to the next character, all places are
passed, and one more position leads beyond the last. -/
theorem round {label : List Char} {bound next : Nat}
    (agrees : w.Agrees before plain (label.filter (·.toNat < bound)) bound 0)
    (up : bound ≤ next) (none : ∀ c ∈ label, bound ≤ c.toNat → next ≤ c.toNat) :
    (Writer.round plain.length label (bound, w) next).2.Agrees before plain
      (label.filter (·.toNat < next + 1)) (next + 1) 0 := by
  have below : label.filter (·.toNat < next) = label.filter (·.toNat < bound) := by
    refine List.filter_congr fun c mem => ?_
    have := none c mem
    simp only [decide_eq_decide]
    omega
  have begins : ({ w with delta := w.delta + (next - bound) * (w.placed + 1) } : Writer).Agrees
      before plain (standing next [] label) next 0 := by
    obtain ⟨count, written, n, i, text, reaches, above, position⟩ := agrees
    rw [standing, List.filter_nil, List.nil_append, below]
    refine ⟨count, written, n, i, text, reaches, by omega, ?_⟩
    have way : next - n = (bound - n) + (next - bound) := by omega
    simp only [count, way, Nat.add_mul]
    omega
  obtain ⟨count, written, n, i, text, reaches, above, position⟩ := begins.passes
  have upTo : label.filter (·.toNat ≤ next) = label.filter (·.toNat < next + 1) :=
    List.filter_congr fun c _ => decide_eq_decide.mpr Nat.lt_succ_iff.symm
  have all : standing next ([] ++ label) [] = label.filter (·.toNat < next + 1) := by
    rw [standing, List.nil_append, List.filter_nil, List.append_nil, upTo]
  rw [all, List.nil_append, upTo] at position
  rw [all] at count reaches
  refine ⟨count, written, n, i, text, reaches, by omega, ?_⟩
  have way : next + 1 - n = (next - n) + 1 := by omega
  simp only [Writer.round, way, Nat.add_mul]
  omega

/-- All rounds. -/
theorem rounds {label : List Char} {bound : Nat} {others : List Nat}
    (agrees : w.Agrees before plain (label.filter (·.toNat < bound)) bound 0)
    (ascending : others.Pairwise (· < ·)) (up : ∀ n ∈ others, bound ≤ n)
    (all : ∀ c ∈ label, bound ≤ c.toNat → c.toNat ∈ others) :
    ∃ written n i, (others.foldl (Writer.round plain.length label) (bound, w)).2.text =
      before ++ written ∧ Reaches plain written label n i
        (others.foldl (Writer.round plain.length label) (bound, w)).2.bias := by
  induction others generalizing bound w with
  | nil =>
    have whole : label.filter (·.toNat < bound) = label := by
      refine List.filter_eq_self.mpr fun c mem => ?_
      have := all c mem
      simpa using this
    obtain ⟨-, written, n, i, text, reaches, -, -⟩ := whole ▸ agrees
    exact ⟨written, n, i, text, reaches⟩
  | cons next others ih =>
    obtain ⟨later, ascending⟩ := List.pairwise_cons.mp ascending
    have none : ∀ c ∈ label, bound ≤ c.toNat → next ≤ c.toNat := fun c mem beyond => by
      rcases List.mem_cons.mp (all c mem beyond) with same | mem
      · exact Nat.le_of_eq same.symm
      · exact Nat.le_of_lt (later _ mem)
    refine ih (agrees.round (up next List.mem_cons_self) none) ascending later fun c mem beyond => ?_
    have := all c mem ((up next List.mem_cons_self).trans (by omega))
    rcases List.mem_cons.mp this with same | mem
    · omega
    · exact mem

end Writer.Agrees

/-! ## The characters to be placed -/

theorem nodup_eraseDups : ∀ ns : List Nat, ns.eraseDups.Nodup
  | [] => List.nodup_nil
  | n :: rest => by
    rw [List.eraseDups_cons, List.nodup_cons, List.mem_eraseDups]
    exact ⟨by simp, nodup_eraseDups _⟩
  termination_by ns => ns.length
  decreasing_by exact Nat.lt_succ_of_le (List.length_filter_le ..)

/-- The characters beyond ASCII of a label, each once and in ascending
order. -/
def others (label : List Char) : List Nat :=
  ((label.filter fun c => 0x80 ≤ c.toNat).map Char.toNat).eraseDups.mergeSort

theorem mem_others {label : List Char} {n : Nat} :
    n ∈ others label ↔ ∃ c ∈ label, 0x80 ≤ c.toNat ∧ c.toNat = n := by
  simp [others, and_assoc]

theorem ascending_others (label : List Char) : (others label).Pairwise (· < ·) := by
  have sorted : (others label).Pairwise fun a b => decide (a ≤ b) = true :=
    List.pairwise_mergeSort (by simp; omega) (by simp; omega) _
  have apart : (others label).Nodup := (List.mergeSort_perm ..).nodup_iff.mpr (nodup_eraseDups _)
  refine (sorted.and apart).imp fun ⟨le, ne⟩ => ?_
  exact Nat.lt_of_le_of_ne (of_decide_eq_true le) ne

/-! ## The whole label -/

/-- The ASCII characters of a label. -/
def plainOf (label : List Char) : List Char := label.filter fun c => c.toNat < 0x80

/-- What the spelling of a label begins with. -/
def opening (plain : List Char) : List Char := if plain.isEmpty then [] else plain ++ ['-']

theorem encode_eq (label : List Char) :
    encode label = ((others label).foldl (Writer.round (plainOf label).length label)
      (0x80, ⟨opening (plainOf label), 0, 72, (plainOf label).length⟩)).2.text := rfl

/-- The spelling of a label is its ASCII characters and a dash, then digits
that take the reader to the label. -/
theorem exists_encode_eq (label : List Char) :
    ∃ written n i bias, encode label = opening (plainOf label) ++ written ∧
      Reaches (plainOf label) written label n i bias := by
  have agrees : Writer.Agrees (opening (plainOf label)) (plainOf label) (plainOf label) 0x80 0
      ⟨opening (plainOf label), 0, 72, (plainOf label).length⟩ :=
    ⟨rfl, [], 0x80, 0, (List.append_nil _).symm, .start _, Nat.le_refl _, by simp⟩
  have all : ∀ c ∈ label, 0x80 ≤ c.toNat → c.toNat ∈ others label := fun c mem beyond =>
    mem_others.mpr ⟨c, mem, beyond, rfl⟩
  have up : ∀ n ∈ others label, 0x80 ≤ n := fun n mem => by
    obtain ⟨c, -, beyond, rfl⟩ := mem_others.mp mem
    exact beyond
  obtain ⟨written, n, i, text, reaches⟩ := agrees.rounds (ascending_others label) up all
  exact ⟨written, n, i, _, (encode_eq label).trans text, reaches⟩

/-- The characters of a spelling: ASCII characters of the label, the dash
and digits. -/
theorem mem_encode {label : List Char} {c : Char} (mem : c ∈ encode label) :
    (c ∈ label ∧ c.toNat < 0x80) ∨ c = '-' ∨ IsDigit c := by
  obtain ⟨written, n, i, bias, text, reaches⟩ := exists_encode_eq label
  rw [text, opening] at mem
  rcases List.mem_append.mp mem with mem | mem
  · split at mem
    · cases mem
    · rcases List.mem_append.mp mem with mem | mem
      · exact .inl (by simpa [plainOf] using mem)
      · exact .inr (.inl (List.mem_singleton.mp mem))
  · exact .inr (.inr (reaches.digits c mem))

/-- A label is read back from its spelling. -/
theorem decode?_encode (label : List Char) : decode? (encode label) = some label := by
  obtain ⟨written, n, i, bias, text, reaches⟩ := exists_encode_eq label
  have ascii : (plainOf label).any (0x80 ≤ ·.toNat) = false := by
    simp [plainOf]
  have digits : ∀ c ∈ written.reverse, decide (c ≠ '-') = true := fun c mem =>
    decide_eq_true (reaches.digits c (List.mem_reverse.mp mem)).ne_dash
  -- the digits are what follows the last dash
  have tail : ((opening (plainOf label) ++ written).reverse.takeWhile (· ≠ '-')).reverse =
      written := by
    rw [List.reverse_append, List.takeWhile_append_of_pos digits, opening]
    split <;> simp
  have front : (opening (plainOf label) ++ written).take
      ((opening (plainOf label) ++ written).length - written.length - 1) = plainOf label := by
    rw [List.length_append, Nat.add_sub_cancel, opening]
    split
    · next none => simp [List.isEmpty_iff.mp none]
    · simp [List.append_assoc]
  obtain ⟨k, few, reads⟩ := reaches.reads
  have read := reads [] (written.length + 1 - k)
  rw [List.append_nil, Nat.sub_add_cancel (by omega)] at read
  rw [text]
  simp only [decode?, tail, front, ascii, Bool.false_eq_true, if_false, read, place_nil]

end AttackMap.Url.Punycode
