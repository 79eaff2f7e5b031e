import AttackMap.Proofs.Json.Spelling

/-!
# Only what is written is read

A text that reads as a tree is written for that tree, so what reads is just
what is written (`spells_iff_reads`): there are no texts that read without
being JSON, and a law about texts written for trees is one about every text
that reads.

The tokens come first. Each of them is read off the front of the text, and
the part that was read is a token by itself (`numeral?_split`,
`pieces?_split`). Then the pass over the tokens is followed state by state:
what has been read up to a state is known from the containers that are open
and from what is wanted next (`Halfway`), and every token keeps it so
(`accounts_step`).
-/

namespace AttackMap.Json

/-! ## Numerals -/

/-- The letter of an exponent starts this text, or it is empty. -/
def StartsExponent (rest : List Char) : Prop := ∀ c ∈ rest.head?, c = 'e' ∨ c = 'E'

theorem StartsExponent.endsDigits {rest : List Char} (starts : StartsExponent rest) :
    EndsDigits rest := by
  intro c mem
  obtain rfl | rfl := starts c mem <;> rfl

/-- A run of digits, whatever comes after it. -/
theorem digitRun_split (cs : List Char) (v k : Nat) :
    ∃ ds, cs = ds ++ (digitRun cs v k).2.2 ∧ (∀ d ∈ ds, (Text.decimalDigit? d).isSome) ∧
      ∀ rest, EndsDigits rest →
        digitRun (ds ++ rest) v k = ((digitRun cs v k).1, (digitRun cs v k).2.1, rest) := by
  induction cs generalizing v k with
  | nil => exact ⟨[], rfl, by simp, fun rest ends => digitRun_endsDigits ends v k⟩
  | cons c r ih =>
    cases digit : Text.decimalDigit? c with
    | none =>
      refine ⟨[], ?_, by simp, ?_⟩
      · rw [digitRun, digit]
        rfl
      · intro rest ends
        rw [digitRun, digit]
        exact digitRun_endsDigits ends v k
    | some d =>
      obtain ⟨ds, front, digits, run⟩ := ih (v * 10 + d) (k + 1)
      refine ⟨c :: ds, ?_, ?_, ?_⟩
      · rw [digitRun, digit, List.cons_append, ← front]
      · rw [List.forall_mem_cons, digit]
        exact ⟨rfl, digits⟩
      · intro rest ends
        rw [List.cons_append, digitRun, digitRun, digit]
        exact run rest ends

theorem fraction?_split {cs r : List Char} {v w p : Nat} (h : fraction? cs v = some (w, p, r)) :
    ∃ fs, cs = fs ++ r ∧ ∀ rest, StartsExponent rest →
      fraction? (fs ++ rest) v = some (w, p, rest) ∧ EndsDigits (fs ++ rest) := by
  by_cases point : ∃ tail, cs = '.' :: tail
  · obtain ⟨tail, rfl⟩ := point
    simp only [fraction?, Option.ite_none_left_eq_some, Option.some.injEq] at h
    obtain ⟨some_digit, run⟩ := h
    obtain ⟨ds, front, -, again⟩ := digitRun_split tail v 0
    rw [run] at front again
    refine ⟨'.' :: ds, congrArg _ front, ?_⟩
    intro rest starts
    refine ⟨?_, ?_⟩
    · rw [List.cons_append]
      simp only [fraction?, again rest starts.endsDigits]
      rw [run] at some_digit
      rw [if_neg some_digit]
    · rintro _ ⟨⟩
      rfl
  · rw [fraction?_of_ne fun tail same => point ⟨tail, same⟩] at h
    cases h
    refine ⟨[], rfl, ?_⟩
    intro rest starts
    refine ⟨fraction?_of_ne ?_ v, starts.endsDigits⟩
    rintro tail rfl
    exact absurd (starts '.' rfl) (by decide)

theorem sign_split (cs : List Char) :
    ∃ ss, cs = ss ++ (sign cs).2 ∧ ∀ d r, (Text.decimalDigit? d).isSome = true →
      sign (ss ++ d :: r) = ((sign cs).1, d :: r) := by
  unfold sign
  split
  · exact ⟨['-'], rfl, fun d r _ => rfl⟩
  · exact ⟨['+'], rfl, fun d r _ => rfl⟩
  · exact ⟨[], rfl, fun d r digit => sign_of_digit digit r⟩

/-- A run that has found digits starts with one. -/
theorem exists_cons_of_digitRun {ds : List Char} {w k : Nat} {r : List Char}
    (run : digitRun ds 0 0 = (w, k, r)) (some_digit : k ≠ 0) : ∃ d ds', ds = d :: ds' := by
  apply List.exists_cons_of_ne_nil
  rintro rfl
  cases run
  exact some_digit rfl

theorem exponent?_split {cs r : List Char} {e : Option Int} (h : exponent? cs = some (e, r)) :
    ∃ es, cs = es ++ r ∧ exponent? es = some (e, []) ∧ StartsExponent es := by
  cases cs with
  | nil =>
    cases h
    exact ⟨[], rfl, rfl, by simp [StartsExponent]⟩
  | cons c tail =>
    rw [exponent?] at h
    split at h
    · next letter =>
      simp only [Option.ite_none_left_eq_some, Option.some.injEq, Prod.mk.injEq] at h
      obtain ⟨some_digit, value, left⟩ := h
      obtain ⟨ss, signed, again⟩ := sign_split tail
      obtain ⟨ds, front, digits, run⟩ := digitRun_split (sign tail).2 0 0
      rw [left] at front
      have alone := run [] (by simp [EndsDigits])
      rw [List.append_nil] at alone
      obtain ⟨d, ds', rfl⟩ := exists_cons_of_digitRun alone some_digit
      refine ⟨c :: (ss ++ d :: ds'), ?_, ?_, ?_⟩
      · rw [List.cons_append, List.append_assoc, ← front, ← signed]
      · rw [exponent?, if_pos letter]
        simp only [again d ds' (digits d List.mem_cons_self), alone]
        rw [if_neg some_digit, value]
      · rintro _ ⟨⟩
        exact letter
    · cases h
      exact ⟨[], rfl, rfl, by simp [StartsExponent]⟩

theorem minus_split (cs : List Char) :
    ∃ ms, cs = ms ++ (minus cs).2 ∧ ∀ d r, (Text.decimalDigit? d).isSome = true →
      minus (ms ++ d :: r) = ((minus cs).1, d :: r) := by
  unfold minus
  split
  · exact ⟨['-'], rfl, fun d r _ => rfl⟩
  · refine ⟨[], rfl, ?_⟩
    intro d r digit
    refine minus_of_ne ?_ r
    rintro rfl
    cases digit

/-- The numeral at the front of a text is one by itself. -/
theorem numeral?_split {cs r : List Char} {n : Numeral} (h : numeral? cs = some (n, r)) :
    ∃ ns, cs = ns ++ r ∧ numeral? ns = some (n, []) := by
  obtain ⟨value, count, tail, significand, places, after, exponent, run, some_digit, no_zero,
    fraction, power, rfl⟩ := numeral?_eq_some_iff.mp h
  obtain ⟨ms, negative, again⟩ := minus_split cs
  obtain ⟨ds, whole, digits, runs⟩ := digitRun_split (minus cs).2 0 0
  obtain ⟨fs, point, fractions⟩ := fraction?_split fraction
  obtain ⟨es, rfl, powers, starts⟩ := exponent?_split power
  obtain ⟨fraction', ends⟩ := fractions es starts
  rw [run] at whole runs
  have alone := runs [] (by simp [EndsDigits])
  rw [List.append_nil] at alone
  obtain ⟨d, ds', rfl⟩ := exists_cons_of_digitRun alone some_digit
  have digit := digits d List.mem_cons_self
  refine ⟨ms ++ d :: (ds' ++ (fs ++ es)), ?_, ?_⟩
  · rw [List.append_assoc, List.cons_append, List.append_assoc, List.append_assoc, ← point,
      ← List.cons_append, ← whole, ← negative]
  · rw [numeral?_eq_some_iff, again d _ digit]
    refine ⟨value, count, fs ++ es, significand, places, es, exponent, runs _ ends, some_digit, ?_,
      fraction', powers, rfl⟩
    rw [whole] at no_zero
    exact no_zero

/-! ## Strings -/

/-- The body of a string at the front of a text is one by itself. -/
theorem pieces?_split {cs r : List Char} {acc ps : List Piece}
    (h : pieces? cs acc = some (ps, r)) :
    ∃ body, cs = body ++ r ∧ pieces? body acc = some (ps, []) := by
  fun_induction pieces? cs acc with
  | case1 => cases h
  | case2 r' acc =>
    cases h
    exact ⟨['"'], rfl, rfl⟩
  | case3 a b c d r' acc n value ih =>
    obtain ⟨body, rfl, pieces⟩ := ih h
    refine ⟨'\\' :: 'u' :: a :: b :: c :: d :: body, rfl, ?_⟩
    simp only [pieces?, value]
    exact pieces
  | case4 => cases h
  | case5 c r' acc other x letter ih =>
    obtain ⟨body, rfl, pieces⟩ := ih h
    refine ⟨'\\' :: c :: body, rfl, ?_⟩
    have no_unit : c ≠ 'u' := by
      rintro rfl
      cases letter
    rw [pieces?]
    · rw [letter]
      exact pieces
    · intro _ _ _ _ _ unit
      exact absurd unit no_unit
  | case6 => cases h
  | case7 => cases h
  | case8 c r' acc quote unit other raw ih =>
    obtain ⟨body, rfl, pieces⟩ := ih h
    refine ⟨c :: body, rfl, ?_⟩
    have no_escape : c ≠ '\\' := by
      rintro rfl
      cases form : body ++ r with
      | nil =>
        rw [List.append_eq_nil_iff] at form
        rw [form.1] at pieces
        cases pieces
      | cons x rest => exact other x rest rfl form
    rw [pieces?]
    · rw [if_neg raw]
      exact pieces
    · exact quote
    · intro _ _ _ _ _ escape
      exact absurd escape no_escape
    · intro _ _ escape
      exact absurd escape no_escape

/-! ## Tokens -/

theorem written_tokens {cs : List Char} (faultless : Token.fault ∉ tokens cs) :
    Written cs (tokens cs) := by
  fun_induction tokens cs with
  | case1 => exact .nil
  | case2 r ih => exact .token .openArray (ih (List.not_mem_of_not_mem_cons faultless))
  | case3 r ih => exact .token .closeArray (ih (List.not_mem_of_not_mem_cons faultless))
  | case4 r ih => exact .token .openObject (ih (List.not_mem_of_not_mem_cons faultless))
  | case5 r ih => exact .token .closeObject (ih (List.not_mem_of_not_mem_cons faultless))
  | case6 r ih => exact .token .comma (ih (List.not_mem_of_not_mem_cons faultless))
  | case7 r ih => exact .token .colon (ih (List.not_mem_of_not_mem_cons faultless))
  | case8 r ps after body shorter ih =>
    obtain ⟨inside, rfl, pieces⟩ := pieces?_split body
    exact .token (.string pieces) (ih (List.not_mem_of_not_mem_cons faultless))
  | case9 => exact absurd List.mem_cons_self faultless
  | case10 r ih => exact .token .null (ih (List.not_mem_of_not_mem_cons faultless))
  | case11 r ih => exact .token .true (ih (List.not_mem_of_not_mem_cons faultless))
  | case12 r ih => exact .token .false (ih (List.not_mem_of_not_mem_cons faultless))
  | case13 c r _ _ _ _ _ _ _ _ _ _ space ih => exact .blank space (ih faultless)
  | case14 c r _ _ _ _ _ _ _ _ _ _ space n after numeral shorter ih =>
    obtain ⟨digits, form, alone⟩ := numeral?_split numeral
    rw [form]
    exact .token (.number alone) (ih (List.not_mem_of_not_mem_cons faultless))
  | case15 => exact absurd List.mem_cons_self faultless

/-- A token that is a tree spells it. -/
theorem spelling_of_written {cs : List Char} {ts : List Token} (written : Written cs ts) {j : Json}
    (mem : .plain j ∈ ts) : j.spelling = [.plain j] := by
  induction written with
  | nil => cases mem
  | blank _ _ ih => exact ih mem
  | token first _ ih =>
    obtain same | later := List.mem_cons.mp mem
    · subst same
      cases first <;> rfl
    · exact ih later

/-! ## What has been read -/

/-- Items each with a comma behind it. -/
def followedItems (items : List Json) : List Token :=
  items.flatMap fun j => j.spelling ++ [.comma]

/-- Members each with a comma behind it. -/
def followedMembers (members : List (String × Json)) : List Token :=
  members.flatMap fun m => .string (some m.1) :: .colon :: (m.2.spelling ++ [.comma])

theorem spellingMoreItems_snoc (items : List Json) (j : Json) :
    spellingMoreItems (items ++ [j]) = .comma :: (followedItems items ++ j.spelling) := by
  induction items with
  | nil => simp [spellingMoreItems, followedItems]
  | cons i items ih =>
    rw [List.cons_append, spellingMoreItems, ih]
    simp [followedItems]

theorem spellingItems_snoc (items : List Json) (j : Json) :
    spellingItems (items ++ [j]) = followedItems items ++ j.spelling := by
  cases items with
  | nil => simp [spellingItems, spellingMoreItems, followedItems]
  | cons i items =>
    rw [List.cons_append, spellingItems, spellingMoreItems_snoc]
    simp [followedItems]

theorem spellingMoreMembers_snoc (members : List (String × Json)) (k : String) (j : Json) :
    spellingMoreMembers (members ++ [(k, j)]) =
      .comma :: (followedMembers members ++ .string (some k) :: .colon :: j.spelling) := by
  induction members with
  | nil => simp [spellingMoreMembers, followedMembers]
  | cons m members ih =>
    rw [List.cons_append, spellingMoreMembers, ih]
    simp [followedMembers]

theorem spellingMembers_snoc (members : List (String × Json)) (k : String) (j : Json) :
    spellingMembers (members ++ [(k, j)]) =
      followedMembers members ++ .string (some k) :: .colon :: j.spelling := by
  cases members with
  | nil => simp [spellingMembers, spellingMoreMembers, followedMembers]
  | cons m members =>
    rw [List.cons_append, spellingMembers, spellingMoreMembers_snoc]
    simp [followedMembers]

/-- The tokens that open containers and fill them up to where the next part
may stand. -/
def opened : List Container → List Token
  | [] => []
  | .items done :: st => opened st ++ .openArray :: followedItems done.reverse
  | .members done :: st => opened st ++ .openObject :: followedMembers done.reverse
  | .member done key :: st =>
    opened st ++ .openObject :: (followedMembers done.reverse ++ [.string (some key), .colon])

/-- What has been read when something is wanted inside containers. -/
inductive Halfway : List Container → Want → List Token → Prop where
  | value {st : List Container} (awaits : Awaits st) : Halfway st .value (opened st)
  | firstItem {st : List Container} (awaits : Awaits st) :
    Halfway (.items [] :: st) .firstItem (opened (.items [] :: st))
  | firstKey {st : List Container} (awaits : Awaits st) :
    Halfway (.members [] :: st) .firstKey (opened (.members [] :: st))
  | key {done : List (String × Json)} {st : List Container} (awaits : Awaits st) :
    Halfway (.members done :: st) .key (opened (.members done :: st))
  | colon {done : List (String × Json)} {k : String} {st : List Container} (awaits : Awaits st) :
    Halfway (.member done k :: st) .colon (opened (.members done :: st) ++ [.string (some k)])
  | moreItems {j : Json} {done : List Json} {st : List Container} (awaits : Awaits st) :
    Halfway (.items (j :: done) :: st) .more (opened (.items done :: st) ++ j.spelling)
  | moreMembers {k : String} {j : Json} {done : List (String × Json)} {st : List Container}
    (awaits : Awaits st) :
    Halfway (.members ((k, j) :: done) :: st) .more (opened (.member done k :: st) ++ j.spelling)

theorem Halfway.fits {st : List Container} {want : Want} {read : List Token}
    (half : Halfway st want read) : Fits st want := by
  cases half with
  | value awaits => exact awaits
  | firstItem awaits => exact awaits_items.mpr awaits
  | firstKey awaits | key awaits | colon awaits | moreItems awaits | moreMembers awaits =>
    exact awaits

/-- What a token does accounts for all that has been read, that token included. -/
def Move.Accounts (read : List Token) : Move → Prop
  | .go st want => Halfway st want read
  | .done j => read = j.spelling
  | .stuck => True

variable {t : Token} {st : List Container} {want : Want} {read : List Token}

theorem accounts_place (j : Json) (awaits : Awaits st) :
    (place j st).Accounts (opened st ++ j.spelling) := by
  cases st with
  | nil => rfl
  | cons c st =>
    cases c with
    | items done => exact .moreItems awaits.tail
    | members done => exact absurd List.mem_cons_self (awaits done)
    | member done key => exact .moreMembers awaits.tail

theorem accounts_opening (leaf : ∀ j, t = .plain j → j.spelling = [t]) (awaits : Awaits st) :
    (opening t st).Accounts (opened st ++ [t]) := by
  cases t with
  | plain j =>
    rw [← leaf j rfl]
    exact accounts_place j awaits
  | string s =>
    have spelled : (s.elim Json.unpaired Json.string).spelling = [.string s] := by
      cases s <;> rfl
    rw [← spelled]
    exact accounts_place _ awaits
  | openArray => exact .firstItem awaits
  | openObject => exact .firstKey awaits
  | closeArray | closeObject | comma | colon | fault => trivial

/-- The end of an array, which then is the next part of what is around it. -/
theorem accounts_closeArray {items : List Json} (awaits : Awaits st) :
    (place (.array items) st).Accounts
      (opened st ++ .openArray :: (spellingItems items ++ [.closeArray])) :=
  accounts_place (.array items) awaits

theorem accounts_closeObject {members : List (String × Json)} (awaits : Awaits st) :
    (place (.object members) st).Accounts
      (opened st ++ .openObject :: (spellingMembers members ++ [.closeObject])) :=
  accounts_place (.object members) awaits

/-- **A token** keeps account of what has been read. -/
theorem accounts_step (half : Halfway st want read)
    (leaf : ∀ j, t = .plain j → j.spelling = [t]) : (step t st want).Accounts (read ++ [t]) := by
  cases half with
  | value awaits => exact accounts_opening leaf awaits
  | @firstItem st awaits =>
    cases t with
    | closeArray =>
      show (place (.array []) st).Accounts _
      have close := @accounts_closeArray st [] awaits
      simpa [opened, followedItems, spellingItems] using close
    | _ => exact accounts_opening leaf (awaits_items.mpr awaits)
  | @firstKey st awaits =>
    cases t with
    | closeObject =>
      show (place (.object []) st).Accounts _
      have close := @accounts_closeObject st [] awaits
      simpa [opened, followedMembers, spellingMembers] using close
    | string s =>
      cases s with
      | none => trivial
      | some k => exact .colon awaits
    | _ => trivial
  | @key done st awaits =>
    cases t with
    | string s =>
      cases s with
      | none => trivial
      | some k => exact .colon awaits
    | _ => trivial
  | @colon done k st awaits =>
    cases t with
    | colon =>
      show Halfway (.member done k :: st) .value _
      have value := Halfway.value (@awaits_member done k st |>.mpr awaits)
      simpa [opened] using value
    | _ => trivial
  | @moreItems j done st awaits =>
    cases t with
    | closeArray =>
      have close := @accounts_closeArray st (done.reverse ++ [j]) awaits
      rw [spellingItems_snoc] at close
      simpa [opened, step] using close
    | comma =>
      show Halfway (.items (j :: done) :: st) .value _
      have value := Halfway.value (@awaits_items (j :: done) st |>.mpr awaits)
      simpa [opened, followedItems] using value
    | _ => trivial
  | @moreMembers k j done st awaits =>
    cases t with
    | closeObject =>
      have close := @accounts_closeObject st (done.reverse ++ [(k, j)]) awaits
      rw [spellingMembers_snoc] at close
      simpa [opened, step] using close
    | comma =>
      show Halfway (.members ((k, j) :: done) :: st) .key _
      have next := @Halfway.key ((k, j) :: done) st awaits
      simpa [opened, followedMembers] using next
    | _ => trivial

/-- A reading that ends with a sound tree has read what spells it. -/
theorem spelling_of_build {ts : List Token} {j : Json} (half : Halfway st want read)
    (leaves : ∀ j, .plain j ∈ ts → j.spelling = [.plain j])
    (whole : build ts st want = (j, [])) (sound : j.sound = true) :
    read ++ ts = j.spelling := by
  induction ts generalizing st want read with
  | nil =>
    cases whole
    exact absurd sound (not_sound_broken half.fits)
  | cons t ts ih =>
    have next : (step t st want).Accounts (read ++ [t]) := by
      apply accounts_step half
      rintro j rfl
      exact leaves j List.mem_cons_self
    rw [build] at whole
    cases move : step t st want with
    | go st' want' =>
      rw [move] at whole next
      rw [List.append_cons]
      apply ih next _ whole
      intro j mem
      exact leaves j (List.mem_cons_of_mem t mem)
    | done j' =>
      rw [move] at whole next
      cases whole
      exact next
    | stuck =>
      rw [move] at whole
      cases whole

/-- **What is read is what is written.** A text reads as a tree, from its
start to its end, if and only if it is written for that tree. -/
theorem spells_iff_reads {cs : List Char} {j : Json} : Spells cs j ↔ Reads cs j := by
  constructor
  · exact Spells.reads
  · intro h
    have written := written_tokens h.whole_tokens
    have spelled := spelling_of_build (.value awaits_nil)
      (fun _ => spelling_of_written written) h.whole h.sound
    rw [Spells, ← spelled]
    exact written

end AttackMap.Json
