import AttackMap.Json.Reader
import AttackMap.Proofs.Json.Tokens

/-!
# Texts inside texts

A text that reads as a value by itself reads as the same value where a
container waits for one (`Reads.go`): the pass over its tokens never looks
at the containers that were open before it. So the value of an array or of
an object is known from the texts of its parts (`Reads.array`,
`Reads.object`), and the parts may be any texts that read, blanks and all.

A reading that has met malformed text gives a tree with a flaw in it. That
the flaw cannot get lost on the way out is what `Fits` is for: only the
innermost container may be between two members, since a flaw put in there
would have no key to stand under.
-/

namespace AttackMap.Json

/-! ## Containers that wait for a value -/

/-- Each of these containers waits for a value. -/
def Awaits (st : List Container) : Prop := ∀ done, Container.members done ∉ st

/-- Whether containers can be open when something is wanted next: all of
them but the innermost wait for a value, and for a value that one does too. -/
def Fits (st : List Container) : Want → Prop
  | .value | .firstItem => Awaits st
  | _ => Awaits st.tail

theorem awaits_nil : Awaits [] := fun _ h => nomatch h

theorem fits_start : Fits [] .value := awaits_nil

theorem Awaits.tail {c : Container} {st : List Container} (h : Awaits (c :: st)) : Awaits st :=
  fun done mem => h done (List.mem_cons_of_mem c mem)

theorem awaits_items {done : List Json} {st : List Container} :
    Awaits (.items done :: st) ↔ Awaits st := by
  simp [Awaits]

theorem awaits_member {done : List (String × Json)} {key : String} {st : List Container} :
    Awaits (.member done key :: st) ↔ Awaits st := by
  simp [Awaits]

theorem Fits.tail {st : List Container} {want : Want} (fits : Fits st want) : Awaits st.tail := by
  cases want with
  | value | firstItem =>
    cases st with
    | nil => exact awaits_nil
    | cons c st => exact Awaits.tail fits
  | firstKey | key | colon | more => exact fits

/-! ## What a token does -/

/-- What a token that fits does, and that it does so whatever containers
were open before. -/
inductive Does (t : Token) (st : List Container) (want : Want) : Prop where
  /-- It completes the tree. -/
  | finishes (j : Json) (step : ∀ frame, step t (st ++ frame) want = place j frame)
  /-- It goes on inside a container. -/
  | goesOn (st' : List Container) (want' : Want) (fits : Fits st' want')
      (step : ∀ frame, step t (st ++ frame) want = .go (st' ++ frame) want')

/-- A token that completes the value that a container waits for. -/
theorem does_of_place {t : Token} {st left : List Container} {want : Want} (j : Json)
    (awaits : Awaits left) (step : ∀ frame, step t (st ++ frame) want = place j (left ++ frame)) :
    Does t st want := by
  cases left with
  | nil => exact .finishes j step
  | cons c left =>
    cases c with
    | items done => exact .goesOn (.items (j :: done) :: left) .more awaits.tail step
    | members done => exact absurd List.mem_cons_self (awaits done)
    | member done key => exact .goesOn (.members ((key, j) :: done) :: left) .more awaits.tail step

theorem opening_does {t : Token} {st : List Container} {want : Want} (awaits : Awaits st)
    (same : ∀ frame, step t (st ++ frame) want = opening t (st ++ frame))
    (fit : opening t st ≠ .stuck) : Does t st want := by
  cases t with
  | plain j => exact does_of_place j awaits same
  | string s => exact does_of_place (s.elim .unpaired .string) awaits same
  | openArray => exact .goesOn (.items [] :: st) .firstItem (awaits_items.mpr awaits) same
  | openObject => exact .goesOn (.members [] :: st) .firstKey awaits same
  | closeArray | closeObject | comma | colon | fault => exact absurd rfl fit

theorem does_of_step {t : Token} {st : List Container} {want : Want} (fits : Fits st want)
    (fit : step t st want ≠ .stuck) : Does t st want := by
  -- in the order in which `step` tries its cases
  unfold step at fit
  split at fit
  · next done st => exact does_of_place (.array done.reverse) fits.tail fun _ => rfl
  · next done st => exact does_of_place (.array done.reverse) fits.tail fun _ => rfl
  · next done st => exact .goesOn (.items done :: st) .value (awaits_items.mpr fits) fun _ => rfl
  · next done st => exact does_of_place (.object done.reverse) fits.tail fun _ => rfl
  · next done st => exact does_of_place (.object done.reverse) fits.tail fun _ => rfl
  · next done st => exact .goesOn (.members done :: st) .key fits fun _ => rfl
  · next k done st => exact .goesOn (.member done k :: st) .colon fits fun _ => rfl
  · next k done st => exact .goesOn (.member done k :: st) .colon fits fun _ => rfl
  · next done k st =>
    exact .goesOn (.member done k :: st) .value (awaits_member.mpr fits) fun _ => rfl
  · exact opening_does fits (fun _ => rfl) fit
  · next other =>
    refine opening_does fits (fun frame => ?_) fit
    cases t with
    | closeArray => exact absurd rfl fit
    | _ => rfl
  · exact absurd rfl fit

/-! ## Flaws -/

theorem soundItems_eq_all (items : List Json) : soundItems items = items.all sound := by
  induction items with
  | nil => rfl
  | cons j r ih => rw [soundItems, List.all_cons, ih]

theorem soundMembers_eq_all (members : List (String × Json)) :
    soundMembers members = members.all (·.2.sound) := by
  induction members with
  | nil => rfl
  | cons m r ih => rw [soundMembers, List.all_cons, ih]

/-- A flaw in a tree shows through the containers around it. -/
theorem sound_enclose {j : Json} {st : List Container} (awaits : Awaits st)
    (sound : (enclose j st).sound = true) : j.sound = true := by
  induction st generalizing j with
  | nil => exact sound
  | cons c st ih =>
    cases c with
    | items done =>
      have outer := ih awaits.tail sound
      rw [Json.sound, soundItems_eq_all, List.all_reverse, List.all_cons, Bool.and_eq_true] at outer
      exact outer.1
    | members done => exact absurd List.mem_cons_self (awaits done)
    | member done key =>
      have outer := ih awaits.tail sound
      rw [Json.sound, soundMembers_eq_all, List.all_reverse, List.all_cons, Bool.and_eq_true]
        at outer
      exact outer.1

theorem not_sound_broken {st : List Container} {want : Want} (fits : Fits st want) :
    (broken st).sound ≠ true := by
  intro sound
  cases st with
  | nil => cases sound
  | cons c st =>
    cases c with
    | items done =>
      have flaw := sound_enclose (awaits_items.mpr fits.tail) sound
      cases flaw
    | member done key =>
      have flaw := sound_enclose (awaits_member.mpr fits.tail) sound
      cases flaw
    | members done =>
      have flaw := sound_enclose fits.tail sound
      rw [Json.sound, soundMembers_eq_all, List.all_reverse, List.all_cons, Bool.and_eq_true]
        at flaw
      cases flaw.1

/-! ## A reading inside containers -/

/-- The first token of a sound tree: the only one, or one that goes on. -/
theorem build_cons {t : Token} {ts : List Token} {st : List Container} {want : Want} {j : Json}
    (fits : Fits st want) (whole : build (t :: ts) st want = (j, [])) (sound : j.sound = true) :
    (ts = [] ∧ ∀ frame, step t (st ++ frame) want = place j frame) ∨
      ∃ st' want', Fits st' want' ∧ build ts st' want' = (j, []) ∧
        ∀ frame, step t (st ++ frame) want = .go (st' ++ frame) want' := by
  by_cases fit : step t st want = .stuck
  · simp only [build, fit] at whole
    cases whole
  · cases does_of_step fits fit with
    | finishes tree does =>
      have alone := does []
      rw [List.append_nil] at alone
      simp only [build, alone, place] at whole
      cases whole
      exact .inl ⟨rfl, does⟩
    | goesOn st' want' fits' does =>
      have alone := does []
      rw [List.append_nil, List.append_nil] at alone
      simp only [build, alone] at whole
      exact .inr ⟨st', want', fits', whole, does⟩

/-- **Nesting.** Tokens that spell one sound tree and nothing more do the
same inside other containers, and the reading goes on from there. -/
theorem build_append {ts rest : List Token} {st frame st' : List Container} {want want' : Want}
    {j : Json} (fits : Fits st want) (whole : build ts st want = (j, [])) (sound : j.sound = true)
    (placed : place j frame = .go st' want') :
    build (ts ++ rest) (st ++ frame) want = build rest st' want' := by
  -- `st` holds what the tokens themselves have opened; the frame stays under it
  induction ts generalizing st want with
  | nil =>
    cases whole
    exact absurd sound (not_sound_broken fits)
  | cons t ts ih =>
    rcases build_cons fits whole sound with ⟨rfl, does⟩ | ⟨inner, next, fits', whole', does⟩
    · simp only [List.cons_append, List.nil_append, build, does frame, placed]
    · simp only [List.cons_append, build, does frame]
      exact ih fits' whole'

theorem step_fault (st : List Container) (want : Want) : step .fault st want = .stuck := by
  cases want <;> rfl

/-- A sound tree was read from tokens that have no fault among them. -/
theorem fault_not_mem {ts : List Token} {st : List Container} {want : Want} {j : Json}
    (fits : Fits st want) (whole : build ts st want = (j, [])) (sound : j.sound = true) :
    Token.fault ∉ ts := by
  induction ts generalizing st want with
  | nil => exact List.not_mem_nil
  | cons t ts ih =>
    have first : t ≠ .fault := by
      rintro rfl
      simp only [build, step_fault] at whole
      cases whole
    have rest : Token.fault ∉ ts := by
      rcases build_cons fits whole sound with ⟨rfl, -⟩ | ⟨inner, next, fits', whole', -⟩
      · exact List.not_mem_nil
      · exact ih fits' whole'
    exact fun mem => (List.mem_cons.mp mem).elim (fun same => first same.symm) rest

/-! ## Texts that read -/

/-- A text is JSON from its start to its end, and this is its tree. -/
structure Reads (cs : List Char) (j : Json) : Prop where
  whole : build (tokens cs) [] .value = (j, [])
  sound : j.sound = true

theorem ofText?_eq_some_iff {s : String} {j : Json} : ofText? s = some j ↔ Reads s.toList j := by
  constructor
  · intro h
    simp only [ofText?, Document.read, Option.ite_none_right_eq_some, Bool.and_eq_true,
      Option.some.injEq] at h
    obtain ⟨⟨sound, all⟩, rfl⟩ := h
    refine ⟨Prod.ext rfl ?_, sound⟩
    simpa using all
  · rintro ⟨whole, sound⟩
    simp only [ofText?, Document.read, whole, sound]
    rfl

namespace Reads

variable {cs : List Char} {j : Json}

theorem document (h : Reads cs j) : Document.read cs = ⟨j, false⟩ := by
  simp only [Document.read, h.whole]
  rfl

theorem whole_tokens (h : Reads cs j) : Token.fault ∉ tokens cs :=
  fault_not_mem fits_start h.whole h.sound

/-- A text is read as the part that open containers wait for. -/
theorem go (h : Reads cs j) {st st' : List Container} {want : Want} {rest : List Char}
    (apart : Apart rest) (placed : place j st = .go st' want) :
    build (tokens (cs ++ rest)) st .value = build (tokens rest) st' want := by
  rw [tokens_append apart h.whole_tokens]
  exact build_append fits_start h.whole h.sound placed

/-- A text is read as the first item of an array: its first token does not
end one. -/
theorem go_first (h : Reads cs j) {st st' : List Container} {want : Want} {rest : List Char}
    (apart : Apart rest) (placed : place j st = .go st' want) :
    build (tokens (cs ++ rest)) st .firstItem = build (tokens rest) st' want := by
  rw [← h.go apart placed, tokens_append apart h.whole_tokens]
  have whole := h.whole
  cases form : tokens cs with
  | nil =>
    rw [form] at whole
    cases whole
    exact absurd h.sound (by decide)
  | cons t r =>
    rw [form] at whole
    have same : step t st .firstItem = step t st .value := by
      cases t with
      | closeArray => cases whole
      | _ => rfl
    simp only [List.cons_append, build, same]

end Reads

/-! ## Arrays -/

/-- Parts with commas between them: the first, and each other one after a comma. -/
theorem intercalate_cons (cs : List Char) (texts : List (List Char)) :
    List.intercalate [','] (cs :: texts) = cs ++ texts.flatMap (',' :: ·) := by
  induction texts generalizing cs with
  | nil => rw [List.intercalate_singleton, List.flatMap_nil, List.append_nil]
  | cons cs' texts ih =>
    rw [List.intercalate_cons_cons, ih, List.flatMap_cons, List.append_assoc,
      List.singleton_append, List.cons_append]

/-- After a part comes a comma or the end of the container. -/
theorem apart_more (texts : List (List Char)) {close : Char}
    (stop : continuesNumeral close = false) : Apart (texts.flatMap (',' :: ·) ++ [close]) := by
  cases texts with
  | nil => exact apart_cons.mpr stop
  | cons cs texts => exact apart_cons.mpr rfl

/-- The end of an array whose items so far are `done`. -/
theorem build_moreItems {texts : List (List Char)} {js : List Json}
    (h : List.Forall₂ Reads texts js) (done : List Json) :
    build (tokens (texts.flatMap (',' :: ·) ++ [']'])) [.items done] .more =
      (.array (done.reverse ++ js), []) := by
  induction h generalizing done with
  | nil =>
    rw [List.flatMap_nil, List.nil_append, tokens, tokens, List.append_nil]
    rfl
  | @cons cs j texts js first others ih =>
    rw [List.flatMap_cons, List.append_assoc, List.cons_append, tokens]
    simp only [build, step]
    rw [first.go (apart_more texts rfl) rfl, ih, List.reverse_cons, List.append_assoc,
      List.singleton_append]

theorem Reads.array {texts : List (List Char)} {js : List Json}
    (h : List.Forall₂ Reads texts js) :
    Reads ('[' :: (List.intercalate [','] texts ++ [']'])) (.array js) := by
  refine ⟨?_, ?_⟩
  · cases h with
    | nil =>
      rw [List.intercalate_nil, List.nil_append, tokens, tokens, tokens]
      rfl
    | @cons cs j texts js first others =>
      rw [intercalate_cons, List.append_assoc, tokens]
      simp only [build, step, opening]
      rw [first.go_first (apart_more texts rfl) rfl, build_moreItems others]
      rfl
  · rw [Json.sound]
    induction h with
    | nil => rfl
    | cons first _ ih => rw [soundItems, first.sound, ih, Bool.and_true]

/-! ## Objects -/

/-- The text of a member. -/
def memberText (m : String × List Char) : List Char := quoted m.1 ++ ':' :: m.2

/-- The text of a member and the member that it reads as. -/
def ReadsMember (m : String × List Char) (m' : String × Json) : Prop :=
  m.1 = m'.1 ∧ Reads m.2 m'.2

/-- A member is read wherever an object may have one. -/
theorem ReadsMember.go {m : String × List Char} {m' : String × Json} (h : ReadsMember m m')
    {want : Want} (wanted : want = .key ∨ want = .firstKey) {rest : List Char} (apart : Apart rest)
    (done : List (String × Json)) (st : List Container) :
    build (tokens (memberText m ++ rest)) (.members done :: st) want =
      build (tokens rest) (.members (m' :: done) :: st) .more := by
  obtain ⟨k, cs⟩ := m
  obtain ⟨k', j⟩ := m'
  obtain ⟨rfl : k = k', reads⟩ := h
  rw [memberText, List.append_assoc, tokens_quoted, List.cons_append, tokens]
  rcases wanted with rfl | rfl
  all_goals
    simp only [build, step]
    exact reads.go apart rfl

/-- The end of an object whose members so far are `done`. -/
theorem build_moreMembers {texts : List (String × List Char)} {ms : List (String × Json)}
    (h : List.Forall₂ ReadsMember texts ms) (done : List (String × Json)) :
    build (tokens ((texts.map memberText).flatMap (',' :: ·) ++ ['\x7d'])) [.members done] .more =
      (.object (done.reverse ++ ms), []) := by
  induction h generalizing done with
  | nil =>
    rw [List.map_nil, List.flatMap_nil, List.nil_append, tokens, tokens, List.append_nil]
    rfl
  | @cons m m' texts ms first others ih =>
    rw [List.map_cons, List.flatMap_cons, List.append_assoc, List.cons_append, tokens]
    simp only [build, step]
    rw [first.go (.inl rfl) (apart_more _ rfl), ih, List.reverse_cons, List.append_assoc,
      List.singleton_append]

theorem Reads.object {texts : List (String × List Char)} {ms : List (String × Json)}
    (h : List.Forall₂ ReadsMember texts ms) :
    Reads ('\x7b' :: (List.intercalate [','] (texts.map memberText) ++ ['\x7d'])) (.object ms) := by
  refine ⟨?_, ?_⟩
  · cases h with
    | nil =>
      rw [List.map_nil, List.intercalate_nil, List.nil_append, tokens, tokens, tokens]
      rfl
    | @cons m m' texts ms first others =>
      rw [List.map_cons, intercalate_cons, List.append_assoc, tokens]
      simp only [build, step, opening]
      rw [first.go (.inr rfl) (apart_more _ rfl), build_moreMembers others]
      rfl
  · rw [Json.sound]
    induction h with
    | nil => rfl
    | cons first _ ih => rw [soundMembers, first.2.sound, ih, Bool.and_true]

/-! ## Leaves -/

theorem Reads.null : Reads ['n', 'u', 'l', 'l'] .null := ⟨by simp only [tokens]; rfl, rfl⟩

theorem Reads.string (s : String) : Reads (quoted s) (.string s) := by
  have one := tokens_quoted s []
  rw [List.append_nil, tokens] at one
  exact ⟨by rw [one]; rfl, rfl⟩

theorem Reads.natural (n : Nat) : Reads (Text.decimal n) (.ofNat n) := by
  have one := tokens_decimal apart_nil n
  rw [List.append_nil, tokens] at one
  exact ⟨by rw [one]; rfl, rfl⟩

theorem Reads.number {cs : List Char} {n : Numeral} (whole : numeral? cs = some (n, [])) :
    Reads cs (.number n) := by
  cases cs with
  | nil => cases whole
  | cons c r =>
    refine ⟨?_, rfl⟩
    rw [tokens_numeral whole, tokens]
    rfl

theorem ReadsMember.string (key s : String) : ReadsMember (key, quoted s) (key, .string s) :=
  ⟨rfl, .string s⟩

theorem ReadsMember.natural (key : String) (n : Nat) :
    ReadsMember (key, Text.decimal n) (key, .ofNat n) :=
  ⟨rfl, .natural n⟩

end AttackMap.Json
