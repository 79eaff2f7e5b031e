import AttackMap.Json.Basic

/-!
# JSON tokens

The lexemes of JSON. Scanning never fails: a text that stops being made of
tokens ends in the token `fault`, and nothing after it is looked at.

A string is scanned in two steps. The first takes the body apart into
pieces, a piece being a character or a sixteen-bit unit written `\uXXXX`.
The second joins the units: a high one directly followed by a low one is
one character, and a unit that is half of a pair and alone is none.
-/

namespace AttackMap.Json

/-- A lexeme. -/
inductive Token where
  | openArray | closeArray | openObject | closeObject | comma | colon
  /-- `null`, `true`, `false`, a number -/
  | plain (j : Json)
  /-- A string; none if its units do not pair up. -/
  | string (s : Option String)
  | fault
  deriving Inhabited, Repr

/-! ## Strings -/

/-- A character, or a unit spelled by a hexadecimal escape. -/
inductive Piece where
  | char (c : Char)
  | unit (n : Nat)
  deriving Repr, DecidableEq

/-- The character that a backslash and a letter other than `u` stand for. -/
def escaped? (c : Char) : Option Char :=
  match c with
  | '"' => some '"'
  | '\\' => some '\\'
  | '/' => some '/'
  | 'b' => some '\x08'
  | 'f' => some '\x0c'
  | 'n' => some '\n'
  | 'r' => some '\r'
  | 't' => some '\t'
  | _ => none

/-- The pieces up to the closing quote, in reverse on top of `acc`, and what
follows the quote. None if the body is malformed: a raw control character,
an unknown escape, or no closing quote. -/
def pieces? : List Char → List Piece → Option (List Piece × List Char)
  | [], _ => none
  | '"' :: r, acc => some (acc, r)
  | '\\' :: 'u' :: a :: b :: c :: d :: r, acc =>
    match Text.number? 16 [a, b, c, d] with
    | some n => pieces? r (.unit n :: acc)
    | none => none
  | '\\' :: c :: r, acc =>
    match escaped? c with
    | some x => pieces? r (.char x :: acc)
    | none => none
  | c :: r, acc => if c.toNat < 0x20 then none else pieces? r (.char c :: acc)

/-- Whether a unit is the first half of a pair. -/
def isHigh (n : Nat) : Bool := 0xD800 ≤ n && n ≤ 0xDBFF

/-- Whether a unit is the second half of a pair. -/
def isLow (n : Nat) : Bool := 0xDC00 ≤ n && n ≤ 0xDFFF

/-- The characters that pieces, given in reverse, spell; on top of `acc`. -/
def joined? : List Piece → List Char → Option (List Char)
  | [], acc => some acc
  | .char c :: r, acc => joined? r (c :: acc)
  | .unit low :: .unit high :: r, acc =>
    if isLow low then
      if isHigh high then
        joined? r (Char.ofNat (0x10000 + (high - 0xD800) * 0x400 + (low - 0xDC00)) :: acc)
      else none
    else if isHigh low then none
    else joined? (.unit high :: r) (Char.ofNat low :: acc)
  | .unit n :: r, acc => if isLow n || isHigh n then none else joined? r (Char.ofNat n :: acc)

/-! ## Numbers -/

/-- A run of digits: the number they spell after `value`, how many there
are, and what follows. -/
def digitRun : List Char → Nat → Nat → Nat × Nat × List Char
  | [], value, count => (value, count, [])
  | c :: r, value, count =>
    match Text.decimalDigit? c with
    | some d => digitRun r (value * 10 + d) (count + 1)
    | none => (value, count, c :: r)

/-- The digits after the point, if there is one. -/
def fraction? (cs : List Char) (value : Nat) : Option (Nat × Nat × List Char) :=
  match cs with
  | '.' :: r =>
    let run := digitRun r value 0
    if run.2.1 = 0 then none else some run
  | _ => some (value, 0, cs)

/-- A minus sign at the front. -/
def minus : List Char → Bool × List Char
  | '-' :: r => (true, r)
  | cs => (false, cs)

/-- A sign of either kind at the front; true for the minus. -/
def sign : List Char → Bool × List Char
  | '-' :: r => (true, r)
  | '+' :: r => (false, r)
  | cs => (false, cs)

/-- The exponent, if there is one. -/
def exponent? (cs : List Char) : Option (Option Int × List Char) :=
  match cs with
  | c :: r =>
    if c = 'e' ∨ c = 'E' then
      let run := digitRun (sign r).2 0 0
      if run.2.1 = 0 then none
      else some (some (if (sign r).1 then -(run.1 : Int) else run.1), run.2.2)
    else some (none, cs)
  | [] => some (none, [])

/-- The numeral at the front of a text that starts with a digit or a minus
sign. A zero may not be followed by a digit. -/
def numeral? (cs : List Char) : Option (Numeral × List Char) :=
  let body := (minus cs).2
  let run := digitRun body 0 0
  if run.2.1 = 0 ∨ (1 < run.2.1 ∧ body.head? = some '0') then none
  else
    match fraction? run.2.2 run.1 with
    | none => none
    | some (significand, places, rest) =>
      match exponent? rest with
      | none => none
      | some (exponent, rest) => some (⟨(minus cs).1, significand, places, exponent⟩, rest)

/-! ## What is left is shorter -/

theorem length_pieces? {cs : List Char} {acc ps : List Piece} {r : List Char}
    (h : pieces? cs acc = some (ps, r)) : r.length < cs.length := by
  fun_induction pieces? cs acc with
  | case1 => simp at h
  | case2 acc r' => simp only [Option.some.injEq, Prod.mk.injEq] at h; simp [h.2]
  | case3 acc a b c d r' n hn ih => have := ih h; simp only [List.length_cons]; omega
  | case4 => simp at h
  | case5 acc c r' hu x hx ih => have := ih h; simp only [List.length_cons]; omega
  | case6 => simp at h
  | case7 => simp at h
  | case8 acc c r' _ _ _ hc ih => have := ih h; simp only [List.length_cons]; omega

theorem length_digitRun (cs : List Char) (v n : Nat) :
    (digitRun cs v n).2.2.length + (digitRun cs v n).2.1 = cs.length + n := by
  fun_induction digitRun cs v n with
  | case1 => simp
  | case2 v n c r d _ ih => rw [ih]; simp only [List.length_cons]; omega
  | case3 => simp

theorem length_fraction? {cs r : List Char} {v w p : Nat}
    (h : fraction? cs v = some (w, p, r)) : r.length ≤ cs.length := by
  unfold fraction? at h
  split at h
  · next s =>
    have hs := length_digitRun s v 0
    simp only [Option.ite_none_left_eq_some, Option.some.injEq] at h
    simp only [h.2] at hs
    simp only [List.length_cons]
    omega
  · simp only [Option.some.injEq, Prod.mk.injEq] at h
    simp [h.2.2]

theorem length_minus (cs : List Char) : (minus cs).2.length ≤ cs.length := by
  unfold minus; split <;> simp

theorem length_sign (cs : List Char) : (sign cs).2.length ≤ cs.length := by
  unfold sign; split <;> simp

theorem length_exponent? {cs r : List Char} {e : Option Int}
    (h : exponent? cs = some (e, r)) : r.length ≤ cs.length := by
  unfold exponent? at h
  split at h
  · next c s =>
    split at h
    · have hs := length_digitRun (sign s).2 0 0
      have hl := length_sign s
      simp only [Option.ite_none_left_eq_some, Option.some.injEq, Prod.mk.injEq] at h
      rw [h.2.2] at hs
      simp only [List.length_cons]
      omega
    · simp only [Option.some.injEq, Prod.mk.injEq] at h
      simp [h.2]
  · simp only [Option.some.injEq, Prod.mk.injEq] at h
    simp [h.2]

theorem length_numeral? {cs r : List Char} {n : Numeral}
    (h : numeral? cs = some (n, r)) : r.length < cs.length := by
  unfold numeral? at h
  have hb := length_digitRun (minus cs).2 0 0
  have hm := length_minus cs
  simp only at h
  split at h
  · simp at h
  · next hc =>
    split at h
    · simp at h
    · next hf =>
      split at h
      · simp at h
      · next he =>
        simp only [Option.some.injEq, Prod.mk.injEq] at h
        obtain ⟨_, rfl⟩ := h
        have h1 := length_fraction? hf
        have h2 := length_exponent? he
        simp only [not_or] at hc
        omega

/-! ## Scanning -/

/-- The four blanks between tokens. -/
def isSpace (c : Char) : Bool := c == ' ' || c == '\n' || c == '\r' || c == '\t'

/-- The tokens of a text. -/
def tokens (cs : List Char) : List Token :=
  match cs with
  | [] => []
  | '[' :: r => .openArray :: tokens r
  | ']' :: r => .closeArray :: tokens r
  | '{' :: r => .openObject :: tokens r
  | '}' :: r => .closeObject :: tokens r
  | ',' :: r => .comma :: tokens r
  | ':' :: r => .colon :: tokens r
  | '"' :: r =>
    match h : pieces? r [] with
    | some (ps, rest) =>
      have := length_pieces? h
      .string ((joined? ps []).map String.ofList) :: tokens rest
    | none => [.fault]
  | 'n' :: 'u' :: 'l' :: 'l' :: r => .plain .null :: tokens r
  | 't' :: 'r' :: 'u' :: 'e' :: r => .plain (.bool true) :: tokens r
  | 'f' :: 'a' :: 'l' :: 's' :: 'e' :: r => .plain (.bool false) :: tokens r
  | c :: r =>
    if isSpace c then tokens r
    else
      match h : numeral? (c :: r) with
      | some (n, rest) =>
        have := length_numeral? h
        .plain (.number n) :: tokens rest
      | none => [.fault]
termination_by cs.length
decreasing_by all_goals simp_all; try omega

end AttackMap.Json
