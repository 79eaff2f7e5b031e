import AttackMap.Proofs.Json.Nesting

/-!
# The spelling of a tree

Which tokens spell a tree is settled by the tree (`spelling`); which text is
written for it is not, since a token may be a string or a numeral that can
be written in several ways (`Lexeme`), and blanks may stand before, between
and after the tokens (`Written`). A text that is written for a tree
(`Spells`) is read as that tree (`Spells.reads`), wherever its blanks are.

Blanks never have to be there. A numeral is the only token that could run on
into the next one, and after a value comes a comma, a closing mark or the
end (`Separated`).
-/

namespace AttackMap.Json

/-! ## Tokens -/

mutual

/-- The tokens of a tree. -/
def spelling : Json → List Token
  | .string s => [.string (some s)]
  | .unpaired => [.string none]
  | .flaw => [.fault]
  | .array items => .openArray :: (spellingItems items ++ [.closeArray])
  | .object members => .openObject :: (spellingMembers members ++ [.closeObject])
  | j => [.plain j]

def spellingItems : List Json → List Token
  | [] => []
  | j :: r => j.spelling ++ spellingMoreItems r

/-- Items each after a comma. -/
def spellingMoreItems : List Json → List Token
  | [] => []
  | j :: r => .comma :: (j.spelling ++ spellingMoreItems r)

def spellingMembers : List (String × Json) → List Token
  | [] => []
  | (k, j) :: r => .string (some k) :: .colon :: (j.spelling ++ spellingMoreMembers r)

/-- Members each after a comma. -/
def spellingMoreMembers : List (String × Json) → List Token
  | [] => []
  | (k, j) :: r => .comma :: .string (some k) :: .colon :: (j.spelling ++ spellingMoreMembers r)

end

/-! ## Reading the tokens of a tree -/

/-- The reading goes on after a move. -/
def resume : Move → List Token → Json × List Token
  | .go st want, ts => build ts st want
  | .done j, ts => (j, ts)
  | .stuck, ts => (.flaw, ts)

theorem place_ne_stuck (j : Json) {st : List Container} (awaits : Awaits st) :
    place j st ≠ .stuck := by
  cases st with
  | nil => exact nofun
  | cons c st =>
    cases c with
    | items | member => exact nofun
    | members done => exact absurd List.mem_cons_self (awaits done)

/-- A token that completes a tree. -/
theorem build_of_place {t : Token} {st left : List Container} {want : Want} {j : Json}
    (step : step t st want = place j left) (awaits : Awaits left) (ts : List Token) :
    build (t :: ts) st want = resume (place j left) ts := by
  have fits := place_ne_stuck j awaits
  rw [build, step]
  cases move : place j left with
  | stuck => exact absurd move fits
  | _ => rfl

/-- A tree does not begin with the end of an array. -/
theorem build_spelling_first (j : Json) (st : List Container) (ts : List Token) :
    build (j.spelling ++ ts) st .firstItem = build (j.spelling ++ ts) st .value := by
  cases j <;> rfl

mutual

/-- The tokens of a tree are read as the tree wherever a value is wanted. -/
theorem build_spelling : ∀ (j : Json) (st : List Container) (ts : List Token), j.sound = true →
    Awaits st → build (j.spelling ++ ts) st .value = resume (place j st) ts
  | .null, st, ts, _, awaits | .bool _, st, ts, _, awaits | .number _, st, ts, _, awaits
  | .string _, st, ts, _, awaits | .unpaired, st, ts, _, awaits => build_of_place rfl awaits ts
  | .flaw, _, _, sound, _ => nomatch sound
  | .array [], st, ts, _, awaits => build_of_place rfl awaits ts
  | .array (j :: r), st, ts, sound, awaits => by
    rw [Json.sound, soundItems, Bool.and_eq_true] at sound
    have close : step .closeArray (.items (r.reverse ++ [j]) :: st) .more =
        place (.array (j :: r)) st := by
      simp only [step, List.reverse_append, List.reverse_reverse, List.reverse_singleton,
        List.singleton_append]
    simp only [spelling, spellingItems, List.cons_append, List.append_assoc, List.nil_append,
      build, step, opening]
    rw [build_spelling_first, build_spelling j _ _ sound.1 (awaits_items.mpr awaits)]
    simp only [place, resume]
    rw [build_spellingMoreItems r [j] st _ sound.2 awaits]
    exact build_of_place close awaits ts
  | .object [], st, ts, _, awaits => build_of_place rfl awaits ts
  | .object ((k, j) :: r), st, ts, sound, awaits => by
    rw [Json.sound, soundMembers, Bool.and_eq_true] at sound
    have close : step .closeObject (.members (r.reverse ++ [(k, j)]) :: st) .more =
        place (.object ((k, j) :: r)) st := by
      simp only [step, List.reverse_append, List.reverse_reverse, List.reverse_singleton,
        List.singleton_append]
    simp only [spelling, spellingMembers, List.cons_append, List.append_assoc, List.nil_append,
      build, step, opening]
    rw [build_spelling j _ _ sound.1 (awaits_member.mpr awaits)]
    simp only [place, resume]
    rw [build_spellingMoreMembers r [(k, j)] st _ sound.2 awaits]
    exact build_of_place close awaits ts

theorem build_spellingMoreItems : ∀ (items done : List Json) (st : List Container)
    (ts : List Token), soundItems items = true → Awaits st →
      build (spellingMoreItems items ++ ts) (.items done :: st) .more =
        build ts (.items (items.reverse ++ done) :: st) .more
  | [], _, _, _, _, _ => rfl
  | j :: r, done, st, ts, sound, awaits => by
    rw [soundItems, Bool.and_eq_true] at sound
    simp only [spellingMoreItems, List.cons_append, List.append_assoc, build, step]
    rw [build_spelling j _ _ sound.1 (awaits_items.mpr awaits)]
    simp only [place, resume]
    rw [build_spellingMoreItems r (j :: done) st ts sound.2 awaits, List.reverse_cons,
      List.append_assoc, List.singleton_append]

theorem build_spellingMoreMembers : ∀ (members done : List (String × Json)) (st : List Container)
    (ts : List Token), soundMembers members = true → Awaits st →
      build (spellingMoreMembers members ++ ts) (.members done :: st) .more =
        build ts (.members (members.reverse ++ done) :: st) .more
  | [], _, _, _, _, _ => rfl
  | (k, j) :: r, done, st, ts, sound, awaits => by
    rw [soundMembers, Bool.and_eq_true] at sound
    simp only [spellingMoreMembers, List.cons_append, List.append_assoc, build, step]
    rw [build_spelling j _ _ sound.1 (awaits_member.mpr awaits)]
    simp only [place, resume]
    rw [build_spellingMoreMembers r ((k, j) :: done) st ts sound.2 awaits, List.reverse_cons,
      List.append_assoc, List.singleton_append]

end

/-! ## Texts -/

/-- How a token may be written. -/
inductive Lexeme : List Char → Token → Prop where
  | openArray : Lexeme ['['] .openArray
  | closeArray : Lexeme [']'] .closeArray
  | openObject : Lexeme ['\x7b'] .openObject
  | closeObject : Lexeme ['\x7d'] .closeObject
  | comma : Lexeme [','] .comma
  | colon : Lexeme [':'] .colon
  | null : Lexeme ['n', 'u', 'l', 'l'] (.plain .null)
  | true : Lexeme ['t', 'r', 'u', 'e'] (.plain (.bool true))
  | false : Lexeme ['f', 'a', 'l', 's', 'e'] (.plain (.bool false))
  | number {cs : List Char} {n : Numeral} (numeral : numeral? cs = some (n, [])) :
    Lexeme cs (.plain (.number n))
  | string {body : List Char} {ps : List Piece} (pieces : pieces? body [] = some (ps, [])) :
    Lexeme ('"' :: body) (.string ((joined? ps []).map String.ofList))

/-- A text is made of tokens, with blanks anywhere before, between and after
them. -/
inductive Written : List Char → List Token → Prop where
  | nil : Written [] []
  | blank {c : Char} {cs : List Char} {ts : List Token} (space : isSpace c = true)
    (rest : Written cs ts) : Written (c :: cs) ts
  | token {lexeme cs : List Char} {t : Token} {ts : List Token} (first : Lexeme lexeme t)
    (rest : Written cs ts) : Written (lexeme ++ cs) (t :: ts)

/-- A text is JSON, and its value is this tree. -/
def Spells (cs : List Char) (j : Json) : Prop := Written cs j.spelling

/-! ## What follows a numeral -/

/-- Whether a token may stand after a value. -/
def endsValue : Token → Bool
  | .comma | .closeArray | .closeObject => true
  | _ => false

/-- After a numeral comes the end of the value. -/
def Separated : List Token → Prop
  | [] => True
  | t :: ts =>
    ((∃ n, t = .plain (.number n)) → ∀ t' ∈ ts.head?, endsValue t' = true) ∧ Separated ts

theorem separated_cons {t : Token} {ts : List Token} (other : ∀ n, t ≠ .plain (.number n))
    (separated : Separated ts) : Separated (t :: ts) :=
  ⟨fun ⟨n, same⟩ => absurd same (other n), separated⟩

mutual

theorem separated_spelling : ∀ (j : Json) {ts : List Token}, Separated ts →
    (∀ t ∈ ts.head?, endsValue t = true) → Separated (j.spelling ++ ts)
  | .null, _, sep, _ | .bool _, _, sep, _ | .string _, _, sep, _ | .unpaired, _, sep, _
  | .flaw, _, sep, _ => separated_cons nofun sep
  | .number _, _, sep, ends => ⟨fun _ => ends, sep⟩
  | .array [], _, sep, _ => separated_cons nofun (separated_cons nofun sep)
  | .array (j :: r), ts, sep, _ => by
    have more := @separated_moreItems r (.closeArray :: ts) (separated_cons nofun sep)
      (by simp [endsValue])
    simp only [spelling, spellingItems, List.cons_append, List.append_assoc, List.nil_append]
    exact separated_cons nofun (separated_spelling j more.1 more.2)
  | .object [], _, sep, _ => separated_cons nofun (separated_cons nofun sep)
  | .object ((k, j) :: r), ts, sep, _ => by
    have more := @separated_moreMembers r (.closeObject :: ts) (separated_cons nofun sep)
      (by simp [endsValue])
    simp only [spelling, spellingMembers, List.cons_append, List.append_assoc, List.nil_append]
    exact separated_cons nofun (separated_cons nofun (separated_cons nofun
      (separated_spelling j more.1 more.2)))

theorem separated_moreItems : ∀ (items : List Json) {ts : List Token}, Separated ts →
    (∀ t ∈ ts.head?, endsValue t = true) → Separated (spellingMoreItems items ++ ts) ∧
      ∀ t ∈ (spellingMoreItems items ++ ts).head?, endsValue t = true
  | [], _, sep, ends => ⟨sep, ends⟩
  | j :: r, ts, sep, ends => by
    have more := separated_moreItems r sep ends
    simp only [spellingMoreItems, List.cons_append, List.append_assoc]
    exact ⟨separated_cons nofun (separated_spelling j more.1 more.2), by simp [endsValue]⟩

theorem separated_moreMembers : ∀ (members : List (String × Json)) {ts : List Token},
    Separated ts → (∀ t ∈ ts.head?, endsValue t = true) →
      Separated (spellingMoreMembers members ++ ts) ∧
        ∀ t ∈ (spellingMoreMembers members ++ ts).head?, endsValue t = true
  | [], _, sep, ends => ⟨sep, ends⟩
  | (k, j) :: r, ts, sep, ends => by
    have more := separated_moreMembers r sep ends
    simp only [spellingMoreMembers, List.cons_append, List.append_assoc]
    exact ⟨separated_cons nofun (separated_cons nofun (separated_cons nofun
      (separated_spelling j more.1 more.2))), by simp [endsValue]⟩

end

/-! ## Scanning a written text -/

theorem apart_of_isSpace {c : Char} (space : isSpace c = true) (r : List Char) :
    Apart (c :: r) := by
  simp only [isSpace, Bool.or_eq_true, beq_iff_eq] at space
  obtain ((rfl | rfl) | rfl) | rfl := space <;> exact apart_cons.mpr rfl

/-- No numeral goes on into a text that starts with the end of a value. -/
theorem Written.apart {cs : List Char} {ts : List Token} (written : Written cs ts)
    (ends : ∀ t ∈ ts.head?, endsValue t = true) : Apart cs := by
  cases written with
  | nil => exact apart_nil
  | blank space rest => exact apart_of_isSpace space _
  | token first rest =>
    have mark := ends _ rfl
    cases first with
    | comma | closeArray | closeObject => exact apart_cons.mpr rfl
    | _ => cases mark

theorem tokens_lexeme {lexeme rest : List Char} {t : Token} (h : Lexeme lexeme t)
    (apart : (∃ n, t = .plain (.number n)) → Apart rest) :
    tokens (lexeme ++ rest) = t :: tokens rest := by
  cases h with
  | @number _ n numeral =>
    have whole := numeral?_append (apart ⟨n, rfl⟩) numeral
    cases lexeme with
    | nil => cases numeral
    | cons c r => exact tokens_numeral whole
  | string pieces => exact tokens_string (pieces?_append rest pieces)
  | _ => simp only [List.cons_append, List.nil_append, tokens]

theorem Written.tokens {cs : List Char} {ts : List Token} (written : Written cs ts)
    (separated : Separated ts) : tokens cs = ts := by
  induction written with
  | nil => rw [Json.tokens]
  | blank space rest ih => rw [tokens_space space, ih separated]
  | token first rest ih =>
    rw [tokens_lexeme first fun number => rest.apart (separated.1 number), ih separated.2]

/-! ## A written text has no flaw -/

theorem Written.fault_not_mem {cs : List Char} {ts : List Token} (written : Written cs ts) :
    Token.fault ∉ ts := by
  induction written with
  | nil => exact List.not_mem_nil
  | blank _ _ ih => exact ih
  | token first _ ih =>
    intro mem
    obtain same | later := List.mem_cons.mp mem
    · cases same
      cases first
    · exact ih later

mutual

theorem sound_of_spelling : ∀ j : Json, Token.fault ∉ j.spelling → j.sound = true
  | .null, _ | .bool _, _ | .number _, _ | .string _, _ | .unpaired, _ | .array [], _
  | .object [], _ => rfl
  | .flaw, faultless => absurd List.mem_cons_self faultless
  | .array (j :: r), faultless => by
    simp only [spelling, spellingItems, List.mem_cons, List.mem_append, not_or] at faultless
    rw [sound, soundItems, sound_of_spelling j faultless.2.1.1,
      soundItems_of_spelling r faultless.2.1.2]
    rfl
  | .object ((k, j) :: r), faultless => by
    simp only [spelling, spellingMembers, List.mem_cons, List.mem_append, not_or] at faultless
    rw [sound, soundMembers, sound_of_spelling j faultless.2.1.2.2.1,
      soundMembers_of_spelling r faultless.2.1.2.2.2]
    rfl

theorem soundItems_of_spelling : ∀ items : List Json, Token.fault ∉ spellingMoreItems items →
    soundItems items = true
  | [], _ => rfl
  | j :: r, faultless => by
    simp only [spellingMoreItems, List.mem_cons, List.mem_append, not_or] at faultless
    rw [soundItems, sound_of_spelling j faultless.2.1, soundItems_of_spelling r faultless.2.2]
    rfl

theorem soundMembers_of_spelling : ∀ members : List (String × Json),
    Token.fault ∉ spellingMoreMembers members → soundMembers members = true
  | [], _ => rfl
  | (k, j) :: r, faultless => by
    simp only [spellingMoreMembers, List.mem_cons, List.mem_append, not_or] at faultless
    rw [soundMembers, sound_of_spelling j faultless.2.2.2.1,
      soundMembers_of_spelling r faultless.2.2.2.2]
    rfl

end

/-! ## Reading -/

namespace Spells

variable {cs : List Char} {j : Json}

theorem sound (h : Spells cs j) : j.sound = true := sound_of_spelling j h.fault_not_mem

theorem tokens (h : Spells cs j) : tokens cs = j.spelling := by
  have alone : Separated (j.spelling ++ []) :=
    separated_spelling j trivial fun _ none => nomatch none
  rw [List.append_nil] at alone
  exact Written.tokens h alone

/-- **Reading what is written.** A text that is written for a tree is read as
that tree, from its start to its end. -/
theorem reads (h : Spells cs j) : Reads cs j := by
  refine ⟨?_, h.sound⟩
  have whole := build_spelling j [] [] h.sound awaits_nil
  rw [List.append_nil, ← h.tokens] at whole
  exact whole

end Spells

end AttackMap.Json
