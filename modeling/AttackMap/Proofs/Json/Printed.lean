import AttackMap.Proofs.Json.Spelling

/-!
# The text of a tree

A tree that can be held is written as a text that spells it
(`spells_text`), so the printer and the reader are inverse to each other.
What has to be seen is that a numeral is read back with all that it keeps:
its sign, its digits, how many of them stand after the point, and its
exponent (`numeral?_text`).

No character that JSON keeps for itself, those below U+0020, is ever written
raw (`visible_text`).
-/

namespace AttackMap.Json

/-! ## Digits -/

theorem isDigit_of_mem_padded {width n : Nat} {c : Char} (mem : c ∈ Text.padded width n) :
    c.isDigit = true := by
  obtain zero | digit := List.mem_append.mp mem
  · rw [List.eq_of_mem_replicate zero]
    rfl
  · exact Text.isDigit_of_mem_decimal digit

theorem le_length_padded (width n : Nat) : width ≤ (Text.padded width n).length := by
  rw [Text.padded, List.length_append, List.length_replicate]
  omega

/-- Zeros in front do not change the number. -/
theorem ofDigitChars_zeros (k : Nat) (cs : List Char) :
    Nat.ofDigitChars 10 (List.replicate k '0' ++ cs) 0 = Nat.ofDigitChars 10 cs 0 := by
  induction k with
  | zero => rfl
  | succ k ih => rw [List.replicate_succ, List.cons_append, Nat.ofDigitChars_cons]; exact ih

theorem ofDigitChars_padded (width n : Nat) :
    Nat.ofDigitChars 10 (Text.padded width n) 0 = n := by
  rw [Text.padded, ofDigitChars_zeros, Text.decimal, Nat.ofDigitChars_ten_toDigits]

/-- Padded digits start with a zero only if they were filled up to the width. -/
theorem head?_padded {width n : Nat} (pos : 0 < width)
    (long : width < (Text.padded width n).length) : (Text.padded width n).head? ≠ some '0' := by
  have full : Text.padded width n = Text.decimal n := by
    have none : width - (Text.decimal n).length = 0 := by
      rw [Text.padded, List.length_append, List.length_replicate] at long
      omega
    rw [Text.padded, none]
    rfl
  rw [full] at long ⊢
  refine head?_decimal ?_
  rintro rfl
  exact absurd long (by simp [Text.decimal]; omega)

/-! ## Numerals -/

section Numerals

open Numeral (ExponentStyle exponentText)

/-- An exponent does not go on the digits or the fraction before it. -/
theorem exponentText_stops (style : ExponentStyle) (e : Option Int) :
    exponentText style e = [] ∨ ∃ r, exponentText style e = 'e' :: r := by
  cases e with
  | none => exact .inl rfl
  | some e => exact .inr ⟨_, rfl⟩

theorem endsDigits_exponentText (style : ExponentStyle) (e : Option Int) :
    EndsDigits (exponentText style e) := by
  intro c mem
  obtain none | ⟨r, some⟩ := exponentText_stops style e
  · rw [none] at mem
    cases mem
  · rw [some] at mem
    cases mem
    rfl

/-- Digits stand without a sign. -/
theorem sign_decimal (n : Nat) : sign (Text.decimal n) = (false, Text.decimal n) := by
  obtain ⟨c, cs, form⟩ := List.exists_cons_of_ne_nil (Nat.toDigits_ne_nil (n := n) (b := 10))
  rw [← Text.decimal] at form
  have digit : c.isDigit = true := Text.isDigit_of_mem_decimal (form ▸ List.mem_cons_self)
  rw [form]
  apply sign_of_digit
  rw [Text.decimalDigit?_of_isDigit digit]
  rfl

theorem digitRun_decimal (n : Nat) :
    digitRun (Text.decimal n) 0 0 = (n, (Text.decimal n).length, []) := by
  have run := digitRun_digits (fun c => Text.isDigit_of_mem_decimal (n := n)) [] 0 0
  rw [List.append_nil, Nat.zero_add] at run
  rw [run, Text.decimal, Nat.ofDigitChars_ten_toDigits]
  rfl

/-- Between the letter of an exponent and its digits stands at most a sign. -/
theorem exists_mark (style : ExponentStyle) (e : Int) :
    ∃ mark ∈ [[], ['+'], ['-']],
      exponentText style (some e) = 'e' :: (mark ++ Text.decimal e.natAbs) ∧
        sign (mark ++ Text.decimal e.natAbs) = (decide (e < 0), Text.decimal e.natAbs) := by
  by_cases below : e < 0
  · refine ⟨['-'], by simp, ?_, ?_⟩
    · simp only [exponentText, if_pos below]
      rfl
    · rw [decide_eq_true below]
      rfl
  · rw [decide_eq_false below]
    cases style with
    | signed =>
      refine ⟨['+'], by simp, ?_, rfl⟩
      simp only [exponentText, if_neg below]
      rfl
    | bare =>
      refine ⟨[], by simp, ?_, sign_decimal _⟩
      simp only [exponentText, if_neg below]
      rfl

theorem exponent?_exponentText (style : ExponentStyle) (e : Option Int) :
    exponent? (exponentText style e) = some (e, []) := by
  cases e with
  | none => rfl
  | some e =>
    obtain ⟨mark, -, form, signed⟩ := exists_mark style e
    have digits : (Text.decimal e.natAbs).length ≠ 0 := by
      intro none
      exact Nat.toDigits_ne_nil (List.length_eq_zero_iff.mp none)
    have value : (if e < 0 then -(e.natAbs : Int) else e.natAbs) = e := by
      split <;> omega
    rw [form, exponent?, if_pos (.inl rfl), signed, digitRun_decimal]
    simp only [if_neg digits, decide_eq_true_eq, value]

/-- The digits of a numeral before its point. -/
def wholeDigits (n : Numeral) : List Char :=
  (Text.padded (n.places + 1) n.significand).take
    ((Text.padded (n.places + 1) n.significand).length - n.places)

/-- What stands after the digits before the point. -/
def afterWhole (style : ExponentStyle) (n : Numeral) : List Char :=
  if n.places = 0 then exponentText style n.exponent
  else '.' :: ((Text.padded (n.places + 1) n.significand).drop
    ((Text.padded (n.places + 1) n.significand).length - n.places) ++ exponentText style n.exponent)

theorem text_eq (style : ExponentStyle) (n : Numeral) :
    n.text style = (if n.negative then ['-'] else []) ++ (wholeDigits n ++ afterWhole style n) := by
  unfold Numeral.text Numeral.mantissaText afterWhole
  by_cases whole : n.places = 0 <;> simp [whole, wholeDigits]

theorem isDigit_of_mem_wholeDigits {n : Numeral} {c : Char} (mem : c ∈ wholeDigits n) :
    c.isDigit = true :=
  isDigit_of_mem_padded (List.mem_of_mem_take mem)

theorem length_wholeDigits (n : Numeral) :
    (wholeDigits n).length = (Text.padded (n.places + 1) n.significand).length - n.places := by
  rw [wholeDigits, List.length_take]
  omega

theorem wholeDigits_ne_nil (n : Numeral) : wholeDigits n ≠ [] := by
  intro none
  have length := length_wholeDigits n
  have enough := le_length_padded (n.places + 1) n.significand
  rw [none, List.length_nil] at length
  omega

theorem minus_text (style : ExponentStyle) (n : Numeral) :
    minus (n.text style) = (n.negative, wholeDigits n ++ afterWhole style n) := by
  rw [text_eq]
  cases n.negative with
  | true => rfl
  | false =>
    obtain ⟨c, cs, form⟩ := List.exists_cons_of_ne_nil (wholeDigits_ne_nil n)
    have digit : c.isDigit = true := isDigit_of_mem_wholeDigits (form ▸ List.mem_cons_self)
    rw [form]
    refine minus_of_ne ?_ _
    rintro rfl
    cases digit

/-- No digit stands after the digits before the point. -/
theorem digitRun_afterWhole (style : ExponentStyle) (n : Numeral) (v k : Nat) :
    digitRun (afterWhole style n) v k = (v, k, afterWhole style n) := by
  apply digitRun_endsDigits
  rw [afterWhole]
  split
  · exact endsDigits_exponentText style n.exponent
  · rintro _ ⟨⟩
    rfl

/-- The digits on both sides of the point are those of the significand. -/
theorem fraction?_afterWhole (style : ExponentStyle) (n : Numeral) :
    fraction? (afterWhole style n) (Nat.ofDigitChars 10 (wholeDigits n) 0) =
      some (n.significand, n.places, exponentText style n.exponent) := by
  have value := ofDigitChars_padded (n.places + 1) n.significand
  have enough := le_length_padded (n.places + 1) n.significand
  rw [afterWhole]
  split
  · next whole =>
    have all : wholeDigits n = Text.padded (n.places + 1) n.significand := by
      rw [wholeDigits, whole, Nat.sub_zero, List.take_length]
    rw [all, value, whole]
    apply fraction?_of_ne
    intro r same
    obtain none | ⟨_, some⟩ := exponentText_stops style n.exponent
    · rw [none] at same
      cases same
    · rw [some] at same
      cases same
  · next some_place =>
    have digits : ∀ c ∈ (Text.padded (n.places + 1) n.significand).drop
        ((Text.padded (n.places + 1) n.significand).length - n.places), c.isDigit = true :=
      fun c mem => isDigit_of_mem_padded (List.mem_of_mem_drop mem)
    have ends := endsDigits_exponentText style n.exponent
    have count : (Text.padded (n.places + 1) n.significand).length -
        ((Text.padded (n.places + 1) n.significand).length - n.places) = n.places := by omega
    rw [fraction?, digitRun_digits digits, digitRun_endsDigits ends, wholeDigits,
      ← Nat.ofDigitChars_append, List.take_append_drop, value, List.length_drop, count]
    simp only [Nat.zero_add, if_neg some_place]

/-- **Reading a numeral back.** The text of a numeral, with the exponent in
either style, is read as that numeral. -/
theorem numeral?_text (style : ExponentStyle) (n : Numeral) :
    numeral? (n.text style) = some (n, []) := by
  rw [numeral?_eq_some_iff, minus_text]
  refine ⟨Nat.ofDigitChars 10 (wholeDigits n) 0, (wholeDigits n).length, afterWhole style n,
    n.significand, n.places, exponentText style n.exponent, n.exponent, ?_, ?_, ?_,
    fraction?_afterWhole style n, exponent?_exponentText style n.exponent, rfl⟩
  · rw [digitRun_digits fun c => isDigit_of_mem_wholeDigits, digitRun_afterWhole,
      Nat.zero_add]
  · exact fun none => wholeDigits_ne_nil n (List.length_eq_zero_iff.mp none)
  · rintro ⟨several, zero⟩
    rw [List.head?_append_of_ne_nil _ (wholeDigits_ne_nil n), wholeDigits, List.head?_take,
      ← length_wholeDigits, if_neg (by omega)] at zero
    have long : n.places + 1 < (Text.padded (n.places + 1) n.significand).length := by
      rw [length_wholeDigits] at several
      omega
    exact head?_padded (Nat.succ_pos _) long zero

end Numerals

/-! ## Trees -/

theorem Written.append {cs ds : List Char} {ts us : List Token} (first : Written cs ts)
    (second : Written ds us) : Written (cs ++ ds) (ts ++ us) := by
  induction first with
  | nil => exact second
  | blank space _ ih => exact .blank space ih
  | token lexeme _ ih =>
    rw [List.append_assoc]
    exact .token lexeme ih

theorem Lexeme.written {cs : List Char} {t : Token} (lexeme : Lexeme cs t) : Written cs [t] := by
  have one := Written.token lexeme .nil
  rwa [List.append_nil] at one

theorem lexeme_quoted (s : String) : Lexeme (quoted s) (.string (some s)) := by
  have body := pieces?_quoted s.toList [] []
  rw [List.append_nil, ← List.map_reverse] at body
  have read := Lexeme.string body
  rwa [joined?_spelled, List.reverse_reverse, List.append_nil, Option.map_some,
    String.ofList_toList] at read

mutual

/-- **Printing.** What can be held is written as a text that spells it. -/
theorem spells_text : ∀ j : Json, j.storable = true → Spells j.text j
  | .null, _ => Lexeme.null.written
  | .bool true, _ => Lexeme.true.written
  | .bool false, _ => Lexeme.false.written
  | .number n, _ => (Lexeme.number (numeral?_text .signed n)).written
  | .string s, _ => (lexeme_quoted s).written
  | .array items, held => by
    rw [storable] at held
    have rest := (written_items items held).append Lexeme.closeArray.written
    have whole := Written.token Lexeme.openArray rest
    exact whole
  | .object members, held => by
    rw [storable] at held
    have rest := (written_members members held).append Lexeme.closeObject.written
    have whole := Written.token Lexeme.openObject rest
    exact whole
  | .unpaired, held | .flaw, held => nomatch held

theorem written_items : ∀ items : List Json, storableItems items = true →
    Written (textItems items) (spellingItems items)
  | [], _ => .nil
  | [j], held => by
    rw [storableItems, Bool.and_eq_true] at held
    rw [textItems, spellingItems, spellingMoreItems, List.append_nil]
    exact spells_text j held.1
  | j :: j' :: r, held => by
    rw [storableItems, Bool.and_eq_true] at held
    exact (spells_text j held.1).append (.token .comma (written_items (j' :: r) held.2))

theorem written_members : ∀ members : List (String × Json), storableMembers members = true →
    Written (textMembers members) (spellingMembers members)
  | [], _ => .nil
  | [(k, j)], held => by
    rw [storableMembers, Bool.and_eq_true] at held
    rw [textMembers, spellingMembers, spellingMoreMembers, List.append_nil]
    exact .token (lexeme_quoted k) (.token .colon (spells_text j held.1))
  | (k, j) :: m :: r, held => by
    rw [storableMembers, Bool.and_eq_true] at held
    have rest := (spells_text j held.1).append (.token .comma (written_members (m :: r) held.2))
    have whole := Written.token (lexeme_quoted k) (.token .colon rest)
    rw [textMembers, List.append_assoc]
    · exact whole
    · exact nofun

end

/-! ## Control characters -/

theorem visible_hexDigit : ∀ n < 16, 0x20 ≤ (Text.hexDigit n).toNat := by
  decide

theorem visible_hexPadded (width n : Nat) : ∀ c ∈ Text.hexPadded width n, 0x20 ≤ c.toNat := by
  induction width generalizing n with
  | zero => exact nofun
  | succ width ih =>
    rw [Text.hexPadded, List.forall_mem_append, List.forall_mem_singleton]
    exact ⟨ih (n / 16), visible_hexDigit _ (Nat.mod_lt n (by decide))⟩

theorem visible_escape (c : Char) : ∀ x ∈ escape c, 0x20 ≤ x.toNat := by
  unfold escape
  -- the two marks and the five letters, the numbered characters, and the others
  iterate 7 (split; · simp)
  split
  · rw [List.forall_mem_append]
    exact ⟨by simp, visible_hexPadded 4 c.toNat⟩
  · next large =>
    rw [List.forall_mem_singleton]
    exact Nat.le_of_not_lt large

theorem visible_quoted (s : String) : ∀ c ∈ quoted s, 0x20 ≤ c.toNat := by
  rw [quoted, List.forall_mem_append, List.forall_mem_cons]
  refine ⟨⟨by simp, ?_⟩, by simp⟩
  intro c mem
  obtain ⟨x, _, here⟩ := List.mem_flatMap.mp mem
  exact visible_escape x c here

theorem visible_of_isDigit {c : Char} (digit : c.isDigit = true) : 0x20 ≤ c.toNat :=
  Nat.le_trans (by decide) (Char.isDigit_iff_toNat.mp digit).1

theorem visible_exponentText (style : Numeral.ExponentStyle) (e : Option Int) :
    ∀ c ∈ Numeral.exponentText style e, 0x20 ≤ c.toNat := by
  cases e with
  | none => simp [Numeral.exponentText]
  | some e =>
    obtain ⟨mark, known, form, -⟩ := exists_mark style e
    have sign : ∀ c ∈ mark, 0x20 ≤ c.toNat := by
      simp only [List.mem_cons, List.not_mem_nil, or_false] at known
      obtain rfl | rfl | rfl := known <;> simp
    rw [form, List.forall_mem_cons, List.forall_mem_append]
    refine ⟨by simp, sign, ?_⟩
    intro c mem
    exact visible_of_isDigit (Text.isDigit_of_mem_decimal mem)

theorem visible_numeral (style : Numeral.ExponentStyle) (n : Numeral) :
    ∀ c ∈ n.text style, 0x20 ≤ c.toNat := by
  have exponent := visible_exponentText style n.exponent
  rw [text_eq, List.forall_mem_append, List.forall_mem_append]
  refine ⟨by split <;> simp, ?_, ?_⟩
  · intro c mem
    exact visible_of_isDigit (isDigit_of_mem_wholeDigits mem)
  rw [afterWhole]
  split
  · exact exponent
  · rw [List.forall_mem_cons, List.forall_mem_append]
    refine ⟨by simp, ?_, exponent⟩
    intro c mem
    exact visible_of_isDigit (isDigit_of_mem_padded (List.mem_of_mem_drop mem))

mutual

/-- No character below U+0020 is written raw. -/
theorem visible_text : ∀ (j : Json), ∀ c ∈ j.text, 0x20 ≤ c.toNat
  | .null | .bool true | .bool false | .unpaired | .flaw => by simp [text]
  | .number n => visible_numeral .signed n
  | .string s => visible_quoted s
  | .array items => by
    rw [text, List.forall_mem_append, List.forall_mem_cons]
    exact ⟨⟨by simp, visible_items items⟩, by simp⟩
  | .object members => by
    rw [text, List.forall_mem_append, List.forall_mem_cons]
    exact ⟨⟨by simp, visible_members members⟩, by simp⟩

theorem visible_items : ∀ (items : List Json), ∀ c ∈ textItems items, 0x20 ≤ c.toNat
  | [] => nofun
  | [j] => visible_text j
  | j :: j' :: r => by
    rw [textItems, List.forall_mem_append, List.forall_mem_cons]
    · exact ⟨visible_text j, by simp, visible_items (j' :: r)⟩
    · exact nofun

theorem visible_members : ∀ (members : List (String × Json)),
    ∀ c ∈ textMembers members, 0x20 ≤ c.toNat
  | [] => nofun
  | [(k, j)] => by
    rw [textMembers, List.forall_mem_append, List.forall_mem_cons]
    exact ⟨visible_quoted k, by simp, visible_text j⟩
  | (k, j) :: m :: r => by
    rw [textMembers, List.forall_mem_append, List.forall_mem_append, List.forall_mem_cons,
      List.forall_mem_cons]
    · exact ⟨⟨visible_quoted k, by simp, visible_text j⟩, by simp, visible_members (m :: r)⟩
    · exact nofun

end

end AttackMap.Json
