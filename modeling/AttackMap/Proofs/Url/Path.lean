import AttackMap.Proofs.Url.Percent
import AttackMap.Url.Reader

/-!
# Paths in their one form

Reading a path carries the dotted segments out and encodes the others. What
is left has no dotted segment: encoding does not write a dot in another way,
nor in three characters where it was written in one (`dots_percentEncode`).
So a path that has been read is a path that is read as itself
(`NormalPath.pathAfterHost_eq`).
-/

namespace AttackMap.Url

/-! ## Encoding makes no dots -/

/-- The first byte of a character is that of a dot for a dot only. -/
theorem first_ne_dot {c : Char} (other : c ≠ '.') {b : UInt8} {bs : List UInt8}
    (bytes : String.utf8EncodeChar c = b :: bs) : b.toNat ≠ 0x2E := by
  unfold String.utf8EncodeChar at bytes
  dsimp only at bytes
  split at bytes
  · next ascii =>
    rw [← (List.cons.inj bytes).1, UInt8.toNat_ofNat', Nat.mod_eq_of_lt (by omega)]
    exact fun same => other (Char.ext (UInt32.toNat_inj.mp same))
  -- the others begin with a byte that no ASCII character has
  · split at bytes
    · rw [← (List.cons.inj bytes).1, UInt8.toNat_ofNat']
      omega
    · split at bytes
      · rw [← (List.cons.inj bytes).1, UInt8.toNat_ofNat']
        omega
      · rw [← (List.cons.inj bytes).1, UInt8.toNat_ofNat']
        omega

/-- No character but a dot is encoded as a dot. -/
theorem dots_percentChar {c : Char} (other : c ≠ '.') (r : List Char) :
    dots (percentChar c ++ r) = none := by
  obtain ⟨b, bs, bytes⟩ := List.exists_cons_of_ne_nil (String.utf8EncodeChar_ne_nil (c := c))
  have notDot := first_ne_dot other bytes
  have digits : ∀ n < 16, (Text.hexDigit n).toUpper ≠ 'e' ∧
      ((Text.hexDigit n).toUpper = '2' → n = 2) ∧ ((Text.hexDigit n).toUpper = 'E' → n = 14) := by
    decide
  have high := digits (b.toNat / 16 % 16) (by omega)
  have low := digits (b.toNat % 16) (by omega)
  have byte := b.toNat_lt
  rw [percentChar, bytes, List.flatMap_cons, percentByte_eq]
  simp only [List.cons_append, List.nil_append]
  rw [dots]
  · nofun
  · nofun
  · intro r same
    injection same with _ same
    injection same with _ same
    injection same with small _
    exact low.1 small
  · intro r same
    injection same with _ same
    injection same with two same
    injection same with capital _
    have := high.2.1 two
    have := low.2.2 capital
    omega

theorem stays_dot : Stays inPath '.' := ⟨by decide, by decide⟩

theorem percentChar_eq_cons (c : Char) : ∃ r, percentChar c = '%' :: r := by
  obtain ⟨b, bs, bytes⟩ := List.exists_cons_of_ne_nil (String.utf8EncodeChar_ne_nil (c := c))
  exact ⟨_, by rw [percentChar, bytes, List.flatMap_cons, percentByte_eq]; rfl⟩

theorem percentEncode_eq_nil {encoded : Char → Bool} {cs : List Char}
    (h : percentEncode encoded cs = []) : cs = [] := by
  cases cs with
  | nil => rfl
  | cons c r =>
    by_cases stays : Stays encoded c
    · rw [percentEncode_cons_of_stays stays] at h
      cases h
    · obtain ⟨marks, form⟩ := percentChar_eq_cons c
      rw [percentEncode_cons_of_not_stays stays, form] at h
      cases h

/-- What a character that is no percent sign is encoded from. -/
theorem percentEncode_eq_cons {encoded : Char → Bool} {cs t : List Char} {x : Char}
    (other : x ≠ '%') (h : percentEncode encoded cs = x :: t) :
    ∃ r, cs = x :: r ∧ percentEncode encoded r = t := by
  cases cs with
  | nil => cases h
  | cons c r =>
    by_cases stays : Stays encoded c
    · rw [percentEncode_cons_of_stays stays] at h
      injection h with same rest
      exact ⟨r, by rw [same], rest⟩
    · obtain ⟨marks, form⟩ := percentChar_eq_cons c
      rw [percentEncode_cons_of_not_stays stays, form] at h
      injection h with same _
      exact absurd same.symm other

/-- The first character of what counts as dots was there before, a percent
sign too. -/
theorem percentEncode_eq_cons_of_dots {s t : List Char} {x : Char}
    (h : percentEncode inPath s = x :: t) (counts : dots (x :: t) ≠ none) :
    ∃ r, s = x :: r ∧ percentEncode inPath r = t := by
  cases s with
  | nil => cases h
  | cons c r =>
    by_cases stays : Stays inPath c
    · rw [percentEncode_cons_of_stays stays] at h
      injection h with same rest
      exact ⟨r, by rw [same], rest⟩
    · have other : c ≠ '.' := by
        rintro rfl
        exact stays stays_dot
      rw [percentEncode_cons_of_not_stays stays] at h
      exact absurd (h ▸ dots_percentChar other _) counts

/-- A dot that is written in three characters was so before. -/
theorem percentEncode_eq_escape {s t : List Char} {x : Char} (other : x ≠ '%')
    (h : percentEncode inPath s = '%' :: '2' :: x :: t)
    (counts : dots ('%' :: '2' :: x :: t) ≠ none) :
    ∃ r, s = '%' :: '2' :: x :: r ∧ percentEncode inPath r = t := by
  obtain ⟨r, same, behindPercent⟩ := percentEncode_eq_cons_of_dots h counts
  obtain ⟨r', rfl, behindTwo⟩ := percentEncode_eq_cons (by decide) behindPercent
  obtain ⟨r'', rfl, rest⟩ := percentEncode_eq_cons other behindTwo
  exact ⟨r'', same, rest⟩

/-- Encoding makes no dots. -/
theorem dots_percentEncode {s : List Char} {k : Nat} (h : dots (percentEncode inPath s) = some k) :
    dots s = some k := by
  generalize written : percentEncode inPath s = t at h
  have counts : dots t ≠ none := h ▸ Option.some_ne_none k
  induction t using dots.induct generalizing s k with
  | case1 =>
    rw [percentEncode_eq_nil written]
    exact h
  | case2 t ih =>
    obtain ⟨r, rfl, rest⟩ := percentEncode_eq_cons_of_dots written counts
    obtain ⟨j, inner, rfl⟩ := Option.map_eq_some_iff.mp h
    rw [dots, ih rest inner (inner ▸ Option.some_ne_none j)]
    rfl
  | case3 t ih =>
    obtain ⟨r, rfl, rest⟩ := percentEncode_eq_escape (by decide) written counts
    obtain ⟨j, inner, rfl⟩ := Option.map_eq_some_iff.mp h
    rw [dots, ih rest inner (inner ▸ Option.some_ne_none j)]
    rfl
  | case4 t ih =>
    obtain ⟨r, rfl, rest⟩ := percentEncode_eq_escape (by decide) written counts
    obtain ⟨j, inner, rfl⟩ := Option.map_eq_some_iff.mp h
    rw [dots, ih rest inner (inner ▸ Option.some_ne_none j)]
    rfl
  | case5 =>
    rw [dots] at h <;> first | assumption | cases h

/-! ## Segments -/

/-- A segment that reading leaves as it is. -/
structure NormalSegment (s : List Char) : Prop where
  chars : ∀ c ∈ s, Stays inPath c ∧ c ≠ '/' ∧ c ≠ '\\'
  notDotted : dots s ≠ some 1 ∧ dots s ≠ some 2

instance (s : List Char) : Decidable (NormalSegment s) :=
  decidable_of_iff (s.all (fun c => Stays inPath c ∧ c ≠ '/' ∧ c ≠ '\\') = true ∧
      dots s ≠ some 1 ∧ dots s ≠ some 2) <| by
    rw [List.all_eq_true]
    exact ⟨fun ⟨chars, notDotted⟩ => ⟨fun c mem => of_decide_eq_true (chars c mem), notDotted⟩,
      fun h => ⟨fun c mem => decide_eq_true (h.chars c mem), h.notDotted⟩⟩

theorem normalSegment_nil : NormalSegment [] := ⟨List.forall_mem_nil _, by decide, by decide⟩

theorem normalSegment_percentEncode {s : List Char} (apart : ∀ c ∈ s, c ≠ '/' ∧ c ≠ '\\')
    (one : dots s ≠ some 1) (two : dots s ≠ some 2) : NormalSegment (percentEncode inPath s) := by
  refine ⟨fun c mem => ⟨stays_of_mem_percentEncode keepsMarks_inPath mem, ?_⟩,
    fun h => one (dots_percentEncode h), fun h => two (dots_percentEncode h)⟩
  obtain ⟨d, among, mem⟩ := List.mem_flatMap.mp mem
  split at mem
  · rw [List.mem_singleton.mp mem]
    exact apart d among
  · have all : ∀ c ∈ percentMarks, c ≠ '/' ∧ c ≠ '\\' := by simp [percentMarks]
    exact all c (mem_percentMarks_of_mem_percentChar mem)

/-- Segments, each with its slash in front. -/
def pathText (segments : List (List Char)) : List Char := segments.flatMap ('/' :: ·)

theorem pathText_cons (s : List Char) (rest : List (List Char)) :
    pathText (s :: rest) = '/' :: (s ++ pathText rest) := by
  rw [pathText, List.flatMap_cons, List.cons_append]
  rfl

theorem segments_ne_nil (isSpecial : Bool) (cs : List Char) : segments isSpecial cs ≠ [] := by
  cases cs with
  | nil => exact List.cons_ne_nil _ _
  | cons c r =>
    rw [segments]
    split
    · exact List.cons_ne_nil _ _
    · split <;> exact List.cons_ne_nil _ _

theorem segments_of_apart {s : List Char} (apart : ∀ c ∈ s, c ≠ '/' ∧ c ≠ '\\') :
    segments true s = [(s, false)] := by
  induction s with
  | nil => rfl
  | cons c r ih =>
    obtain ⟨here, apart⟩ := List.forall_mem_cons.mp apart
    rw [segments, if_neg (by simp [here]), ih apart]

theorem segments_append_slash {s : List Char} (apart : ∀ c ∈ s, c ≠ '/' ∧ c ≠ '\\')
    (r : List Char) : segments true (s ++ '/' :: r) = (s, true) :: segments true r := by
  induction s with
  | nil => rw [List.nil_append, segments, if_pos (.inl rfl)]
  | cons c s ih =>
    obtain ⟨here, apart⟩ := List.forall_mem_cons.mp apart
    rw [List.cons_append, segments, if_neg (by simp [here]), ih apart]

theorem apart_of_mem_segments {cs s : List Char} {slash : Bool}
    (mem : (s, slash) ∈ segments true cs) : ∀ c ∈ s, c ≠ '/' ∧ c ≠ '\\' := by
  induction cs generalizing s slash with
  | nil =>
    cases List.mem_singleton.mp mem
    exact List.forall_mem_nil _
  | cons c r ih =>
    rw [segments] at mem
    split at mem
    · rcases List.mem_cons.mp mem with same | mem
      · cases same
        exact List.forall_mem_nil _
      · exact ih mem
    · next other =>
      split at mem
      · next none => exact absurd none (segments_ne_nil true r)
      · next first flag rest parts =>
        rw [parts] at ih
        rcases List.mem_cons.mp mem with same | mem
        · cases same
          refine List.forall_mem_cons.mpr ⟨by simpa using other, ih List.mem_cons_self⟩
        · exact ih (List.mem_cons_of_mem _ mem)

/-! ## Paths -/

/-- A path that reading leaves as it is. -/
def NormalPath (path : List Char) : Prop :=
  ∃ s rest, path = pathText (s :: rest) ∧ ∀ t ∈ s :: rest, NormalSegment t

/-- Dotted segments are carried out; one segment at least is left. -/
theorem normal_resolve {segs : List (List Char × Bool)}
    (apart : ∀ s ∈ segs, ∀ c ∈ s.1, c ≠ '/' ∧ c ≠ '\\') {done : List (List Char)}
    (normal : ∀ t ∈ done, NormalSegment t) : ∀ t ∈ resolve segs done, NormalSegment t := by
  induction segs generalizing done with
  | nil => simpa [resolve] using normal
  | cons seg rest ih =>
    obtain ⟨s, slash⟩ := seg
    obtain ⟨here, apart⟩ := List.forall_mem_cons.mp apart
    have shorter : ∀ t ∈ done.drop 1, NormalSegment t := fun t mem =>
      normal t (List.mem_of_mem_drop mem)
    rw [resolve]
    split
    · refine ih apart ?_
      split
      · exact normal
      · exact List.forall_mem_cons.mpr ⟨normalSegment_nil, normal⟩
    · refine ih apart ?_
      split
      · exact shorter
      · exact List.forall_mem_cons.mpr ⟨normalSegment_nil, shorter⟩
    · next one two =>
      exact ih apart (List.forall_mem_cons.mpr
        ⟨normalSegment_percentEncode here one two, normal⟩)

theorem getLast?_segments (isSpecial : Bool) (cs : List Char) :
    ∃ s, (segments isSpecial cs).getLast? = some (s, false) := by
  induction cs with
  | nil => exact ⟨[], rfl⟩
  | cons c r ih =>
    obtain ⟨s, last⟩ := ih
    rw [segments]
    split
    · obtain ⟨first, rest, parts⟩ := List.exists_cons_of_ne_nil (segments_ne_nil isSpecial r)
      rw [parts] at last ⊢
      exact ⟨s, by rw [List.getLast?_cons_cons, last]⟩
    · split
      · exact ⟨_, rfl⟩
      · next first flag rest parts =>
        rw [parts] at last
        cases rest with
        | nil =>
          cases Option.some.inj last
          exact ⟨_, rfl⟩
        | cons next rest => exact ⟨s, by rw [List.getLast?_cons_cons] at last ⊢; exact last⟩

theorem resolve_ne_nil {segs : List (List Char × Bool)} {s : List Char}
    (last : segs.getLast? = some (s, false)) (done : List (List Char)) : resolve segs done ≠ [] := by
  induction segs generalizing done with
  | nil => cases last
  | cons seg rest ih =>
    obtain ⟨t, slash⟩ := seg
    cases rest with
    | nil =>
      cases Option.some.inj last
      rw [resolve]
      split <;> simp [resolve]
    | cons next rest =>
      rw [List.getLast?_cons_cons] at last
      rw [resolve]
      split <;> exact ih last _

/-- A normal segment is kept as it is. -/
theorem resolve_cons {s : List Char} (normal : NormalSegment s) (slash : Bool)
    (rest : List (List Char × Bool)) (done : List (List Char)) :
    resolve ((s, slash) :: rest) done = resolve rest (s :: done) := by
  rw [resolve]
  split
  · next one => exact absurd one normal.notDotted.1
  · next two => exact absurd two normal.notDotted.2
  · rw [percentEncode_of_stays fun c mem => (normal.chars c mem).1]

/-- Normal segments are gone through as they are. -/
theorem resolve_segments {s : List Char} {rest : List (List Char)}
    (normal : ∀ t ∈ s :: rest, NormalSegment t) (done : List (List Char)) :
    resolve (segments true (s ++ pathText rest)) done = done.reverse ++ s :: rest := by
  induction rest generalizing s done with
  | nil =>
    obtain ⟨here, -⟩ := List.forall_mem_cons.mp normal
    rw [pathText, List.flatMap_nil, List.append_nil, segments_of_apart fun c mem =>
      (here.chars c mem).2]
    rw [resolve_cons here, resolve, List.reverse_cons]
  | cons next rest ih =>
    obtain ⟨here, normal⟩ := List.forall_mem_cons.mp normal
    rw [pathText_cons, segments_append_slash fun c mem => (here.chars c mem).2]
    rw [resolve_cons here, ih normal, List.reverse_cons, List.append_assoc, List.singleton_append]

theorem normalPath_pathOf (cs : List Char) : NormalPath (pathOf true cs) := by
  obtain ⟨last, is⟩ := getLast?_segments true cs
  obtain ⟨s, rest, form⟩ := List.exists_cons_of_ne_nil (resolve_ne_nil is [])
  refine ⟨s, rest, by rw [pathOf, form, pathText], ?_⟩
  rw [← form]
  exact normal_resolve (fun seg mem => apart_of_mem_segments mem) (List.forall_mem_nil _)

/-- What is read as a path is normal. -/
theorem normalPath_pathAfterHost (cs : List Char) : NormalPath (pathAfterHost true cs) := by
  unfold pathAfterHost
  split
  · exact ⟨[], [], rfl, List.forall_mem_singleton.mpr normalSegment_nil⟩
  · split <;> exact normalPath_pathOf _

namespace NormalPath

variable {path : List Char}

theorem exists_eq_cons (normal : NormalPath path) : ∃ r, path = '/' :: r := by
  obtain ⟨s, rest, rfl, -⟩ := normal
  exact ⟨_, pathText_cons s rest⟩

/-- A normal path is read as itself. -/
theorem pathAfterHost_eq (normal : NormalPath path) : pathAfterHost true path = path := by
  obtain ⟨s, rest, rfl, normal⟩ := normal
  have whole := resolve_segments normal []
  rw [pathText_cons, pathAfterHost, if_pos (.inl rfl), pathOf, whole, ← pathText_cons]
  rfl

theorem chars (normal : NormalPath path) : ∀ c ∈ path, c = '/' ∨ Stays inPath c := by
  obtain ⟨s, rest, rfl, normal⟩ := normal
  intro c mem
  obtain ⟨t, among, mem⟩ := List.mem_flatMap.mp mem
  rcases List.mem_cons.mp mem with slash | mem
  · exact .inl slash
  · exact .inr ((normal t among).chars c mem).1

end NormalPath

end AttackMap.Url
