import AttackMap.Proofs.Url.Appending

/-!
# Plain texts

A text without blanks, controls, backslashes and dotted segments is read as
it stands: what is done to its path is to encode characters one by one
(`pathAfterHost_of_plain`). So a slash put at its end is a slash at the end
of its path (`pathAfterHost_append_slash`).
-/

namespace AttackMap.Url

theorem percentEncode_append (encoded : Char → Bool) (cs ds : List Char) :
    percentEncode encoded (cs ++ ds) = percentEncode encoded cs ++ percentEncode encoded ds :=
  List.flatMap_append

/-- A text in which reading a path does nothing but encode characters. -/
structure Plain (cs : List Char) : Prop where
  visible : ∀ c ∈ cs, 0x20 < c.toNat
  noBackslash : '\\' ∉ cs
  /-- Between slashes there is never one dot or two. -/
  notDotted : ∀ s ∈ (segments true cs).map (·.1), dots s ≠ some 1 ∧ dots s ≠ some 2

instance (cs : List Char) : Decidable (Plain cs) :=
  decidable_of_iff (cs.all (fun c => 0x20 < c.toNat && c != '\\') = true ∧
      ((segments true cs).map (·.1)).all (fun s => dots s != some 1 && dots s != some 2) =
        true) <| by
    simp only [List.all_eq_true, Bool.and_eq_true, decide_eq_true_eq, bne_iff_ne]
    constructor
    · rintro ⟨chars, notDotted⟩
      exact ⟨fun c mem => (chars c mem).1, fun mem => (chars _ mem).2 rfl, notDotted⟩
    · rintro ⟨visible, noBackslash, notDotted⟩
      exact ⟨fun c mem => ⟨visible c mem, fun same => noBackslash (same ▸ mem)⟩, notDotted⟩

/-- Plain on both sides of a slash is plain. -/
theorem plain_append_slash {cs r : List Char} : Plain (cs ++ '/' :: r) ↔ Plain cs ∧ Plain r := by
  obtain ⟨first, before, same, all⟩ := exists_segments_append cs
  have segs : (segments true (cs ++ '/' :: r)).map (·.1) =
      (segments true cs).map (·.1) ++ (segments true r).map (·.1) := by
    rw [all, List.map_append, same]
  have slash : 0x20 < '/'.toNat ∧ '/' ≠ '\\' := by decide
  constructor
  · rintro ⟨visible, noBackslash, notDotted⟩
    rw [segs, List.forall_mem_append] at notDotted
    rw [List.forall_mem_append, List.forall_mem_cons] at visible
    rw [List.mem_append, List.mem_cons, not_or, not_or] at noBackslash
    exact ⟨⟨visible.1, noBackslash.1, notDotted.1⟩, visible.2.2, noBackslash.2.2, notDotted.2⟩
  · rintro ⟨before, behind⟩
    refine ⟨?_, ?_, ?_⟩
    · rw [List.forall_mem_append, List.forall_mem_cons]
      exact ⟨before.visible, slash.1, behind.visible⟩
    · rw [List.mem_append, List.mem_cons, not_or, not_or]
      exact ⟨before.noBackslash, slash.2.symm, behind.noBackslash⟩
    · rw [segs, List.forall_mem_append]
      exact ⟨before.notDotted, behind.notDotted⟩

theorem resolve_of_notDotted {segs : List (List Char × Bool)}
    (notDotted : ∀ s ∈ segs.map (·.1), dots s ≠ some 1 ∧ dots s ≠ some 2)
    (done : List (List Char)) :
    resolve segs done = done.reverse ++ segs.map fun s => percentEncode inPath s.1 := by
  induction segs generalizing done with
  | nil => simp [resolve]
  | cons seg segs ih =>
    obtain ⟨s, slash⟩ := seg
    obtain ⟨⟨one, two⟩, notDotted⟩ := List.forall_mem_cons.mp notDotted
    rw [resolve]
    split
    · next is => exact absurd is one
    · next is => exact absurd is two
    · rw [ih notDotted]
      simp

theorem normalPath_slash : NormalPath "/".toList :=
  ⟨[], [], rfl, List.forall_mem_singleton.mpr normalSegment_nil⟩

theorem stays_slash : Stays inPath '/' := ⟨by decide, by decide⟩

/-- Cut at its slashes, a text is put together again. -/
theorem pathText_segments {cs : List Char} (noBackslash : '\\' ∉ cs) :
    pathText ((segments true cs).map fun s => percentEncode inPath s.1) =
      percentEncode inPath ('/' :: cs) := by
  induction cs with
  | nil => rfl
  | cons c r ih =>
    rw [List.mem_cons, not_or] at noBackslash
    have ih := ih noBackslash.2
    rw [percentEncode_cons_of_stays stays_slash] at ih ⊢
    rw [segments]
    split
    · next slash =>
      obtain rfl := slash.resolve_right fun h => noBackslash.1 h.2.symm
      rw [List.map_cons, pathText_cons, ih, percentEncode_cons_of_stays stays_slash]
      rfl
    · split
      · next none => exact absurd none (segments_ne_nil true r)
      · next s slash rest parts =>
        rw [parts, List.map_cons, pathText_cons] at ih
        rw [List.map_cons, pathText_cons]
        have more : percentEncode inPath s ++
            pathText (rest.map fun s => percentEncode inPath s.1) = percentEncode inPath r :=
          List.cons_injective ih
        have first : c :: s = [c] ++ s := rfl
        have all : c :: r = [c] ++ r := rfl
        rw [first, all, percentEncode_append, percentEncode_append, List.append_assoc, more]

/-- A plain path is read with its characters encoded. -/
theorem Plain.pathAfterHost_eq {cs : List Char} (plain : Plain cs) :
    pathAfterHost true ('/' :: cs) = percentEncode inPath ('/' :: cs) := by
  rw [← pathText_segments plain.noBackslash, pathAfterHost, if_pos (.inl rfl), pathOf,
    resolve_of_notDotted plain.notDotted]
  rfl

theorem plain_nil : Plain [] where
  visible := List.forall_mem_nil _
  noBackslash := List.not_mem_nil
  notDotted := by decide

/-- Encoding writes no slash at the end that was not there. -/
theorem getLast?_percentEncode {cs : List Char} (last : cs.getLast? ≠ some '/') :
    (percentEncode inPath cs).getLast? ≠ some '/' := by
  obtain rfl | ⟨front, c, rfl⟩ := List.eq_nil_or_concat' cs
  · exact nofun
  · have other : c ≠ '/' := by
      rintro rfl
      exact last List.getLast?_concat
    have filled : percentEncode inPath [c] ≠ [] := fun none => nomatch percentEncode_eq_nil none
    rw [percentEncode_append, List.getLast?_append_of_ne_nil _ filled]
    intro slash
    by_cases stays : Stays inPath c
    · rw [percentEncode_cons_of_stays stays] at slash
      exact other (Option.some.inj slash)
    · rw [percentEncode_cons_of_not_stays stays] at slash
      have mem := List.mem_of_getLast? slash
      rw [percentEncode, List.flatMap_nil, List.append_nil] at mem
      have mark := mem_percentMarks_of_mem_percentChar mem
      simp [percentMarks] at mark

/-! ## Pieces of a plain text -/

/-- The path of a plain text is read with its characters encoded. -/
theorem pathAfterHost_of_plain {p : Pieces} (free : NoMark p.rest) (plain : Plain p.text)
    (filled : p.rest ≠ []) : pathAfterHost true p.rest = percentEncode inPath p.rest := by
  obtain ⟨c, r, rest⟩ := List.exists_cons_of_ne_nil filled
  have mem : c ∈ p.rest := rest ▸ List.mem_cons_self
  have slash : c = '/' := by
    have either := isSlash_of_noMark (p.ends c (rest ▸ rfl)) (free c mem)
    have backslash : c ≠ '\\' := by
      rintro rfl
      exact plain.noBackslash (by simp [Pieces.text, mem])
    simpa [isSlash, backslash] using either
  have whole : p.text = p.name ++ ':' :: (p.slashes ++ p.server) ++ '/' :: r := by
    simp [Pieces.text, rest, slash]
  rw [rest, slash, (plain_append_slash.mp (whole ▸ plain)).2.pathAfterHost_eq]

theorem pathAfterHost_append_slash {p : Pieces} (free : NoMark p.rest) (plain : Plain p.text) :
    pathAfterHost true (p.rest ++ ['/']) = percentEncode inPath p.rest ++ ['/'] := by
  have ends : ∀ c ∈ ['/'].head?, endsHost true c = true := fun c mem => Option.some.inj mem ▸ rfl
  have all : NoMark (p.append ['/'] ends).rest :=
    noMark_append.mpr ⟨free, normalPath_slash.noMark⟩
  have plain' : Plain (p.append ['/'] ends).text := by
    rw [p.text_append]
    exact plain_append_slash.mpr ⟨plain, plain_nil⟩
  have encoded := pathAfterHost_of_plain all plain'
    (List.append_ne_nil_of_right_ne_nil _ (List.cons_ne_nil _ _))
  rw [← percentEncode_of_stays (List.forall_mem_singleton.mpr stays_slash), ← percentEncode_append]
  exact encoded

end AttackMap.Url
