import AttackMap.Json.Printer
import AttackMap.Json.Token
import AttackMap.Proofs.Text.Digits
import Mathlib.Data.List.Basic

/-!
# The tokens of joined texts

A text that is made of tokens keeps them when more text is put behind it,
as long as no numeral at its end could go on there (`tokens_append`). So a
text that is put together from parts has the tokens of the parts, one after
another: what a message says about a value does not depend on what the
value is.

The parts that a writer supplies itself are strings in quotes and whole
numbers; `tokens_quoted` and `tokens_decimal` say which tokens these are.
-/

namespace AttackMap.Json

/-! ## Where a numeral may go on -/

/-- Whether a numeral could go on with a character. -/
def continuesNumeral (c : Char) : Bool :=
  (Text.decimalDigit? c).isSome || c == '.' || c == 'e' || c == 'E'

/-- No numeral goes on into this text. -/
def Apart (rest : List Char) : Prop := ∀ c ∈ rest.head?, continuesNumeral c = false

theorem apart_nil : Apart [] := fun _ h => nomatch h

theorem apart_cons {c : Char} {r : List Char} : Apart (c :: r) ↔ continuesNumeral c = false := by
  simp [Apart]

variable {rest : List Char}

/-- Digits in front of this text end there. -/
def EndsDigits (rest : List Char) : Prop := ∀ c ∈ rest.head?, Text.decimalDigit? c = none

theorem Apart.endsDigits (apart : Apart rest) : EndsDigits rest := by
  intro c mem
  have stops := apart c mem
  simp only [continuesNumeral, Bool.or_eq_false_iff, Option.isSome_eq_false_iff,
    Option.isNone_iff_eq_none] at stops
  exact stops.1.1.1

theorem digitRun_endsDigits (ends : EndsDigits rest) (v k : Nat) :
    digitRun rest v k = (v, k, rest) := by
  cases rest with
  | nil => rfl
  | cons c r => rw [digitRun, ends c rfl]

theorem digitRun_append (apart : Apart rest) (cs : List Char) (v k : Nat) :
    digitRun (cs ++ rest) v k =
      ((digitRun cs v k).1, (digitRun cs v k).2.1, (digitRun cs v k).2.2 ++ rest) := by
  induction cs generalizing v k with
  | nil => exact digitRun_endsDigits apart.endsDigits v k
  | cons c r ih =>
    rw [List.cons_append, digitRun, digitRun]
    cases Text.decimalDigit? c with
    | some d => exact ih (v * 10 + d) (k + 1)
    | none => rfl

theorem minus_of_ne {c : Char} (positive : c ≠ '-') (r : List Char) :
    minus (c :: r) = (false, c :: r) := by
  rw [minus]
  rintro _ ⟨⟩
  exact positive rfl

theorem minus_append {cs : List Char} (ne : cs ≠ []) :
    minus (cs ++ rest) = ((minus cs).1, (minus cs).2 ++ rest) := by
  obtain ⟨c, r, rfl⟩ := List.exists_cons_of_ne_nil ne
  by_cases negative : c = '-'
  · subst negative
    rfl
  · rw [List.cons_append, minus_of_ne negative, minus_of_ne negative]
    rfl

theorem sign_append {cs : List Char} (ne : cs ≠ []) :
    sign (cs ++ rest) = ((sign cs).1, (sign cs).2 ++ rest) := by
  obtain ⟨c, r, rfl⟩ := List.exists_cons_of_ne_nil ne
  by_cases negative : c = '-'
  · subst negative
    rfl
  by_cases positive : c = '+'
  · subst positive
    rfl
  have none (r : List Char) : sign (c :: r) = (false, c :: r) := by
    rw [sign]
    · rintro _ ⟨⟩
      exact negative rfl
    · rintro _ ⟨⟩
      exact positive rfl
  rw [List.cons_append, none, none]
  rfl

theorem sign_of_digit {c : Char} (digit : (Text.decimalDigit? c).isSome = true) (r : List Char) :
    sign (c :: r) = (false, c :: r) := by
  rw [sign]
  · rintro _ ⟨⟩
    cases digit
  · rintro _ ⟨⟩
    cases digit

/-- A text that does not start with a point has no fraction at its front. -/
theorem fraction?_of_ne {cs : List Char} (h : ∀ r, cs ≠ '.' :: r) (v : Nat) :
    fraction? cs v = some (v, 0, cs) := by
  rw [fraction?]
  exact fun r same => h r same

theorem fraction?_append (apart : Apart rest) {cs r : List Char} {v w p : Nat}
    (h : fraction? cs v = some (w, p, r)) : fraction? (cs ++ rest) v = some (w, p, r ++ rest) := by
  by_cases point : ∃ tail, cs = '.' :: tail
  · obtain ⟨tail, rfl⟩ := point
    simp only [fraction?, Option.ite_none_left_eq_some, Option.some.injEq] at h
    obtain ⟨some_digit, run⟩ := h
    rw [List.cons_append]
    simp only [fraction?, digitRun_append apart]
    rw [if_neg some_digit, run]
  · have plain : ∀ tail, cs ++ rest ≠ '.' :: tail := by
      intro tail same
      cases cs with
      | nil =>
        have stops := apart '.' (by rw [← List.nil_append rest, same, List.head?_cons]; rfl)
        exact absurd stops (by decide)
      | cons c cs => exact point ⟨cs, by rw [List.cons_append] at same; cases same; rfl⟩
    rw [fraction?_of_ne fun tail same => point ⟨tail, same⟩] at h
    cases h
    exact fraction?_of_ne plain v

theorem exponent?_apart (apart : Apart rest) : exponent? rest = some (none, rest) := by
  cases rest with
  | nil => rfl
  | cons c r =>
    have stops := apart_cons.mp apart
    simp only [continuesNumeral, Bool.or_eq_false_iff, beq_eq_false_iff_ne] at stops
    rw [exponent?, if_neg]
    rintro (h | h)
    · exact stops.1.2 h
    · exact stops.2 h

theorem exponent?_append (apart : Apart rest) {cs r : List Char} {e : Option Int}
    (h : exponent? cs = some (e, r)) : exponent? (cs ++ rest) = some (e, r ++ rest) := by
  cases cs with
  | nil =>
    cases h
    exact exponent?_apart apart
  | cons c tail =>
    rw [exponent?] at h
    rw [List.cons_append, exponent?]
    split at h
    · next letter =>
      rw [if_pos letter]
      simp only [Option.ite_none_left_eq_some, Option.some.injEq, Prod.mk.injEq] at h
      obtain ⟨some_digit, value, left⟩ := h
      -- a letter at the very end has no digit after it
      have ne : tail ≠ [] := by
        rintro rfl
        exact some_digit rfl
      simp only [sign_append ne, digitRun_append apart]
      rw [if_neg some_digit, value, left]
    · next other =>
      rw [if_neg other]
      cases h
      rfl

/-- What a numeral at the front of a text is made of. -/
theorem numeral?_eq_some_iff {cs r : List Char} {n : Numeral} :
    numeral? cs = some (n, r) ↔
      ∃ value count tail significand places after exponent,
        digitRun (minus cs).2 0 0 = (value, count, tail) ∧ count ≠ 0 ∧
        ¬ (1 < count ∧ (minus cs).2.head? = some '0') ∧
        fraction? tail value = some (significand, places, after) ∧
        exponent? after = some (exponent, r) ∧
        n = ⟨(minus cs).1, significand, places, exponent⟩ := by
  unfold numeral?
  constructor
  · intro h
    simp only [Option.ite_none_left_eq_some, not_or] at h
    obtain ⟨⟨some_digit, no_zero⟩, h⟩ := h
    split at h
    · cases h
    · next significand places after fraction =>
      split at h
      · cases h
      · next exponent r' power =>
        cases h
        exact ⟨_, _, _, significand, places, after, exponent, rfl, some_digit, no_zero, fraction,
          power, rfl⟩
  · rintro ⟨value, count, tail, significand, places, after, exponent, run, some_digit, no_zero,
      fraction, power, rfl⟩
    simp only [run, fraction, power]
    rw [if_neg (not_or.mpr ⟨some_digit, no_zero⟩)]

theorem numeral?_append (apart : Apart rest) {cs r : List Char} {n : Numeral}
    (h : numeral? cs = some (n, r)) : numeral? (cs ++ rest) = some (n, r ++ rest) := by
  obtain ⟨value, count, tail, significand, places, after, exponent, run, some_digit, no_zero,
    fraction, power, rfl⟩ := numeral?_eq_some_iff.mp h
  have body : (minus cs).2 ≠ [] := by
    intro none
    rw [none] at run
    cases run
    exact some_digit rfl
  have ne : cs ≠ [] := by
    rintro rfl
    exact body rfl
  rw [numeral?_eq_some_iff, minus_append ne]
  refine ⟨value, count, tail ++ rest, significand, places, after ++ rest, exponent, ?_, some_digit,
    ?_, fraction?_append apart fraction, exponent?_append apart power, rfl⟩
  · rw [digitRun_append apart, run]
  · rwa [List.head?_append_of_ne_nil _ body]

/-- A numeral starts with a digit or a minus sign. -/
theorem starts_of_numeral? {c : Char} {cs r : List Char} {n : Numeral}
    (h : numeral? (c :: cs) = some (n, r)) : c = '-' ∨ (Text.decimalDigit? c).isSome := by
  obtain ⟨value, count, tail, -, -, -, -, run, some_digit, -⟩ := numeral?_eq_some_iff.mp h
  by_cases negative : c = '-'
  · exact .inl negative
  · right
    rw [minus_of_ne negative, digitRun] at run
    cases digit : Text.decimalDigit? c with
    | some d => rfl
    | none =>
      rw [digit] at run
      cases run
      exact absurd rfl some_digit

/-! ## Strings -/

theorem pieces?_append (rest : List Char) {cs r : List Char} {acc ps : List Piece}
    (h : pieces? cs acc = some (ps, r)) : pieces? (cs ++ rest) acc = some (ps, r ++ rest) := by
  fun_induction pieces? cs acc with
  | case1 => cases h
  | case2 r' acc => cases h; rfl
  | case3 a b c d r' acc n value ih =>
    simp only [List.cons_append, pieces?, value]
    exact ih h
  | case4 => cases h
  | case5 c r' acc other x letter ih =>
    have no_unit : c ≠ 'u' := by
      rintro rfl
      cases letter
    rw [List.cons_append, List.cons_append, pieces?]
    · rw [letter]
      exact ih h
    · exact fun _ _ _ _ _ unit _ => no_unit unit
  | case6 => cases h
  | case7 => cases h
  | case8 c r' acc quote unit other raw ih =>
    -- a backslash here would be the last character of the body
    have no_escape : c ≠ '\\' := by
      rintro rfl
      cases r' with
      | nil => cases h
      | cons x r' => exact other x r' rfl rfl
    rw [List.cons_append, pieces?]
    · rw [if_neg raw]
      exact ih h
    · exact quote
    · exact fun _ _ _ _ _ escape _ => no_escape escape
    · exact fun _ _ escape _ => no_escape escape

/-! ## Scanning -/

theorem tokens_space {c : Char} (space : isSpace c = true) (r : List Char) :
    tokens (c :: r) = tokens r := by
  simp only [isSpace, Bool.or_eq_true, beq_iff_eq] at space
  obtain ((rfl | rfl) | rfl) | rfl := space
  all_goals
    rw [tokens]
    · rfl
    all_goals simp

theorem tokens_string {r rest : List Char} {ps : List Piece}
    (body : pieces? r [] = some (ps, rest)) :
    tokens ('"' :: r) = .string ((joined? ps []).map String.ofList) :: tokens rest := by
  rw [tokens]
  split
  · next ps' rest' same =>
    rw [body] at same
    cases same
    rfl
  · next same =>
    rw [body] at same
    cases same

theorem tokens_numeral {c : Char} {r rest : List Char} {n : Numeral}
    (numeral : numeral? (c :: r) = some (n, rest)) :
    tokens (c :: r) = .plain (.number n) :: tokens rest := by
  have first := starts_of_numeral? numeral
  have other (x : Char) (h : ¬ (x = '-' ∨ (Text.decimalDigit? x).isSome)) : c ≠ x := by
    rintro rfl
    exact h first
  rw [tokens]
  · rw [if_neg]
    · split
      · next n' rest' same =>
        rw [numeral] at same
        cases same
        rfl
      · next same =>
        rw [numeral] at same
        cases same
    · intro space
      simp only [isSpace, Bool.or_eq_true, beq_iff_eq] at space
      obtain ((rfl | rfl) | rfl) | rfl := space <;> exact absurd first (by decide)
  -- the marks, and then the three words
  iterate 7 exact other _ (by decide)
  iterate 3 exact fun _ letter _ => other _ (by decide) letter

/-- **Tokens of a joined text.** Text that is made of tokens keeps them when
more is put behind it, and the tokens of what is put there follow. -/
theorem tokens_append (apart : Apart rest) {cs : List Char} (whole : Token.fault ∉ tokens cs) :
    tokens (cs ++ rest) = tokens cs ++ tokens rest := by
  fun_induction tokens cs with
  | case1 => rfl
  | case2 r ih | case3 r ih | case4 r ih | case5 r ih | case6 r ih | case7 r ih
  | case10 r ih | case11 r ih | case12 r ih =>
    simp only [List.mem_cons, not_or] at whole
    simp only [List.cons_append, tokens, ih whole.2]
  | case8 r ps after body shorter ih =>
    simp only [List.mem_cons, not_or] at whole
    rw [List.cons_append, tokens_string (pieces?_append rest body), ih whole.2, List.cons_append]
  | case9 => exact absurd List.mem_cons_self whole
  | case13 c r _ _ _ _ _ _ _ _ _ _ space ih =>
    rw [List.cons_append, tokens_space space, ih whole]
  | case14 c r _ _ _ _ _ _ _ _ _ _ space n after numeral shorter ih =>
    simp only [List.mem_cons, not_or] at whole
    have joined := numeral?_append apart numeral
    rw [List.cons_append] at joined
    rw [List.cons_append, tokens_numeral joined, ih whole.2, List.cons_append]
  | case15 => exact absurd List.mem_cons_self whole

/-! ## Strings in quotes -/

/-- Whether a character in quotes is written with its number. -/
def isNumbered (c : Char) : Bool :=
  c.toNat < 0x20 && !(['\x08', '\x0c', '\n', '\r', '\t'].contains c)

/-- The piece that a character in quotes is read as. -/
def spelled (c : Char) : Piece := if isNumbered c then .unit c.toNat else .char c

theorem number?_hexPadded :
    ∀ n < 0x20, Text.number? 16 (Text.hexPadded 4 n) = some n := by
  decide

theorem pieces?_escape (c : Char) (r : List Char) (acc : List Piece) :
    pieces? (escape c ++ r) acc = pieces? r (spelled c :: acc) := by
  unfold escape
  split
  · next h => subst h; rfl
  split
  · next h => subst h; rfl
  split
  · next h => subst h; rfl
  split
  · next h => subst h; rfl
  split
  · next h => subst h; rfl
  split
  · next h => subst h; rfl
  split
  · next h => subst h; rfl
  split
  · next small =>
    have numbered : isNumbered c = true := by simp_all [isNumbered]
    rw [spelled, if_pos numbered]
    obtain ⟨w, x, y, z, four⟩ : ∃ w x y z, Text.hexPadded 4 c.toNat = [w, x, y, z] :=
      ⟨_, _, _, _, rfl⟩
    have value := number?_hexPadded c.toNat small
    rw [four] at value
    simp only [four, List.cons_append, List.nil_append, pieces?, value]
  · next quote backslash _ _ _ _ _ large =>
    have raw : isNumbered c = false := by simp [isNumbered, large]
    rw [spelled, raw]
    rw [List.singleton_append, pieces?]
    · rw [if_neg large]
      rfl
    · exact quote
    · exact fun _ _ _ _ _ escape _ => backslash escape
    · exact fun _ _ escape _ => backslash escape

theorem pieces?_quoted (cs r : List Char) (acc : List Piece) :
    pieces? (cs.flatMap escape ++ '"' :: r) acc = some ((cs.map spelled).reverse ++ acc, r) := by
  induction cs generalizing acc with
  | nil => rfl
  | cons c cs ih =>
    rw [List.flatMap_cons, List.append_assoc, pieces?_escape, ih, List.map_cons, List.reverse_cons,
      List.append_assoc, List.singleton_append]

/-- A unit that is no half of a pair is a character by itself. -/
theorem joined?_unit {n : Nat} (small : n < 0xD800) (ps : List Piece) (acc : List Char) :
    joined? (.unit n :: ps) acc = joined? ps (Char.ofNat n :: acc) := by
  have high : isHigh n = false := by
    simp only [isHigh, Bool.and_eq_false_iff, decide_eq_false_iff_not]
    omega
  have low : isLow n = false := by
    simp only [isLow, Bool.and_eq_false_iff, decide_eq_false_iff_not]
    omega
  cases ps with
  | nil => simp only [joined?, high, low, Bool.or_self, Bool.false_eq_true, if_false]
  | cons p ps =>
    cases p with
    | char c => simp only [joined?, high, low, Bool.or_self, Bool.false_eq_true, if_false]
    | unit m => simp only [joined?, high, low, Bool.false_eq_true, if_false]

theorem joined?_spelled (cs acc : List Char) :
    joined? (cs.map spelled) acc = some (cs.reverse ++ acc) := by
  induction cs generalizing acc with
  | nil => rfl
  | cons c cs ih =>
    have first :
        joined? (spelled c :: cs.map spelled) acc = joined? (cs.map spelled) (c :: acc) := by
      unfold spelled
      split
      · next numbered =>
        simp only [isNumbered, Bool.and_eq_true, decide_eq_true_eq] at numbered
        rw [joined?_unit (by omega), Char.ofNat_toNat]
      · rw [joined?]
    rw [List.map_cons, first, ih, List.reverse_cons, List.append_assoc, List.singleton_append]

/-- A string in quotes is one token, whatever its characters. -/
theorem tokens_quoted (s : String) (r : List Char) :
    tokens (quoted s ++ r) = .string (some s) :: tokens r := by
  have body := pieces?_quoted s.toList r []
  rw [List.append_nil, ← List.map_reverse] at body
  rw [quoted, List.append_assoc, List.cons_append, List.singleton_append, tokens_string body,
    joined?_spelled, List.reverse_reverse, List.append_nil, Option.map_some, String.ofList_toList]

/-! ## Whole numbers -/

/-- Digits are read one after another, and the run goes on behind them. -/
theorem digitRun_digits {cs : List Char} (digits : ∀ c ∈ cs, c.isDigit = true) (rest : List Char)
    (v k : Nat) :
    digitRun (cs ++ rest) v k = digitRun rest (Nat.ofDigitChars 10 cs v) (k + cs.length) := by
  induction cs generalizing v k with
  | nil => rfl
  | cons c cs ih =>
    rw [List.cons_append, digitRun, Text.decimalDigit?_of_isDigit (digits c List.mem_cons_self)]
    simp only
    rw [ih (fun x hx => digits x (List.mem_cons_of_mem c hx)), Nat.ofDigitChars_cons, Nat.mul_comm,
      List.length_cons, Nat.add_right_comm, Nat.add_assoc]

theorem digitChar_ne_zero : ∀ d < 10, d ≠ 0 → d.digitChar ≠ '0' := by
  decide

/-- The digits of a number do not start with a zero, but for zero. -/
theorem head?_decimal {n : Nat} (pos : n ≠ 0) : (Text.decimal n).head? ≠ some '0' := by
  induction n using Nat.strongRecOn with
  | ind n ih =>
    unfold Text.decimal at ih ⊢
    by_cases small : n < 10
    · rw [Nat.toDigits_of_lt_base small, List.head?_cons]
      exact fun same => digitChar_ne_zero n small pos (Option.some.inj same)
    · rw [Nat.toDigits_of_base_le (by decide) (by omega),
        List.head?_append_of_ne_nil _ Nat.toDigits_ne_nil]
      exact ih (n / 10) (by omega) (by omega)

theorem numeral?_decimal (apart : Apart rest) (n : Nat) :
    numeral? (Text.decimal n ++ rest) = some (⟨false, n, 0, none⟩, rest) := by
  have digits : ∀ c ∈ Text.decimal n, c.isDigit = true :=
    fun c => Nat.isDigit_of_mem_toDigits (by decide) (by decide)
  have ne : Text.decimal n ≠ [] := Nat.toDigits_ne_nil
  have positive : minus (Text.decimal n ++ rest) = (false, Text.decimal n ++ rest) := by
    obtain ⟨c, cs, form⟩ := List.exists_cons_of_ne_nil ne
    have digit : c.isDigit = true := digits c (by rw [form]; exact List.mem_cons_self)
    rw [form, List.cons_append]
    refine minus_of_ne ?_ _
    rintro rfl
    cases digit
  have run := digitRun_digits digits rest 0 0
  rw [digitRun_endsDigits apart.endsDigits, Text.decimal, Nat.ofDigitChars_ten_toDigits,
    ← Text.decimal] at run
  rw [numeral?_eq_some_iff, positive]
  refine ⟨n, _, rest, n, 0, rest, none, run, ?_, ?_, ?_, exponent?_apart apart, rfl⟩
  · rw [Nat.zero_add]
    exact fun none => ne (List.length_eq_zero_iff.mp none)
  · rintro ⟨several, zero⟩
    rw [List.head?_append_of_ne_nil _ ne] at zero
    refine head?_decimal ?_ zero
    rintro rfl
    cases several with
    | step h => cases h
  · refine fraction?_of_ne ?_ n
    rintro r rfl
    exact absurd (apart_cons.mp apart) (by decide)

theorem tokens_decimal (apart : Apart rest) (n : Nat) :
    tokens (Text.decimal n ++ rest) = .plain (ofNat n) :: tokens rest := by
  have numeral := numeral?_decimal apart n
  obtain ⟨c, cs, form⟩ := List.exists_cons_of_ne_nil (Nat.toDigits_ne_nil (n := n) (b := 10))
  rw [Text.decimal, form, List.cons_append] at numeral ⊢
  have whole : ofNat n = .number ⟨false, n, 0, none⟩ := by
    rw [ofNat, ofInt, Numeral.ofInt, Int.natAbs_natCast, decide_eq_false (by omega)]
  rw [tokens_numeral numeral, whole]

end AttackMap.Json
