import AttackMap.Proofs.Url.Pieces

/-!
# A path behind a URL

A path that is put behind the text of a URL changes nothing before the path
of the URL. What it does there depends on what it meets. Behind a query or a
fragment it goes there, and the path stays (`path_followedBy_append`). Behind
a path it is more path: the dotted segments before it are carried out without
regard to it, and its own segments follow (`exists_path_before`).
-/

namespace AttackMap.Url

/-! ## Blanks and controls -/

/-- The characters that count if more text follows. -/
def leading (cs : List Char) : List Char :=
  (cs.dropWhile fun c => c.toNat ≤ 0x20).filter fun c => c != '\t' && c != '\n' && c != '\r'

theorem filter_visible {cs : List Char} (visible : ∀ c ∈ cs, 0x20 < c.toNat) :
    cs.filter (fun c => c != '\t' && c != '\n' && c != '\r') = cs := by
  refine List.filter_eq_self.mpr fun c mem => ?_
  have other (x : Char) (low : x.toNat ≤ 0x20) : c ≠ x := (ne_of_low low (visible c mem)).symm
  simp [other '\t' (by decide), other '\n' (by decide), other '\r' (by decide)]

theorem leading_of_visible {cs : List Char} (visible : ∀ c ∈ cs, 0x20 < c.toNat) :
    leading cs = cs := by
  rw [leading, dropWhile_of_forall fun c mem => decide_eq_false (Nat.not_le.mpr (visible c mem)),
    filter_visible visible]

/-- Blanks and controls count if visible text follows them, unless they stand
in front or are left out everywhere. -/
theorem significant_append (s : String) {more : List Char} (filled : more ≠ [])
    (visible : ∀ c ∈ more, 0x20 < c.toNat) :
    significant (s ++ String.ofList more) = leading s.toList ++ more := by
  have high : ∀ c ∈ more, decide (c.toNat ≤ 0x20) = false := fun c mem =>
    decide_eq_false (Nat.not_le.mpr (visible c mem))
  have front (cs : List Char) : (cs ++ more).dropWhile (fun c => decide (c.toNat ≤ 0x20)) =
      cs.dropWhile (fun c => decide (c.toNat ≤ 0x20)) ++ more := by
    rw [List.dropWhile_append, dropWhile_of_forall high]
    split
    · next none => rw [List.isEmpty_iff.mp none, List.nil_append]
    · rfl
  have back (cs : List Char) :
      ((cs ++ more).reverse.dropWhile (fun c => decide (c.toNat ≤ 0x20))).reverse = cs ++ more := by
    obtain ⟨m, c, rfl⟩ := (List.eq_nil_or_concat' more).resolve_left filled
    rw [← List.append_assoc, List.reverse_append, List.reverse_singleton, List.singleton_append,
      List.dropWhile_cons, high c (by simp), if_neg Bool.false_ne_true, List.reverse_cons,
      List.reverse_reverse]
  simp only [significant, String.toList_append, String.toList_ofList, front, back,
    List.filter_append, filter_visible visible]
  rfl

/-- What counts of a text is what counts if more follows, without blanks and
controls at the end. -/
theorem exists_controls (s : String) :
    ∃ controls, leading s.toList = significant s ++ controls ∧ ∀ c ∈ controls, c.toNat ≤ 0x20 := by
  obtain ⟨controls, text, backwards, low, stops⟩ := exists_span (fun c => decide (c.toNat ≤ 0x20))
    (s.toList.dropWhile fun c => c.toNat ≤ 0x20).reverse
  have dropped := dropWhile_append_eq low stops
  have forwards : (s.toList.dropWhile fun c => c.toNat ≤ 0x20) =
      text.reverse ++ controls.reverse := by
    rw [← List.reverse_append, ← backwards, List.reverse_reverse]
  refine ⟨controls.reverse.filter fun c => c != '\t' && c != '\n' && c != '\r', ?_, ?_⟩
  · rw [leading, significant, backwards, dropped, forwards, List.filter_append]
  · intro c mem
    exact of_decide_eq_true (low c (List.mem_reverse.mp (List.mem_of_mem_filter mem)))

/-! ## Marks of a query or a fragment -/

/-- Neither a query nor a fragment begins in a text. -/
def NoMark (cs : List Char) : Prop := ∀ c ∈ cs, (c != '?' && c != '#') = true

theorem noMark_append {cs ds : List Char} : NoMark (cs ++ ds) ↔ NoMark cs ∧ NoMark ds :=
  List.forall_mem_append

theorem noMark_of_low {cs : List Char} (low : ∀ c ∈ cs, c.toNat ≤ 0x20) : NoMark cs := by
  intro c mem
  simp [ne_of_low (low c mem) (x := '?') (by decide), ne_of_low (low c mem) (x := '#') (by decide)]

theorem NormalPath.noMark {path : List Char} (normal : NormalPath path) : NoMark path := by
  intro c mem
  rcases normal.chars c mem with rfl | stays
  · rfl
  · simp [stays.ne (x := '?') (by decide), stays.ne (x := '#') (by decide)]

/-- Where neither begins, a path does. -/
theorem isSlash_of_noMark {c : Char} (ends : endsHost true c = true)
    (free : (c != '?' && c != '#') = true) : isSlash c = true := by
  simp only [Bool.and_eq_true, bne_iff_ne] at free
  simpa [endsHost, isSlash, free] using ends

theorem splitPath_append_of_mark {cs : List Char} (marked : ¬ NoMark cs) (more : List Char) :
    (splitPath (cs ++ more)).1 = (splitPath cs).1 := by
  obtain ⟨path, behind, rfl, all, stops⟩ := exists_span (fun c => c != '?' && c != '#') cs
  cases behind with
  | nil => exact absurd (by rwa [List.append_nil]) marked
  | cons c r =>
    rw [List.append_assoc, splitPath, splitPath, span_append all stops, span_append all]
    exact stops

section Followed

variable {u : Url} {rest : List Char}

theorem followedBy_of_noMark (free : NoMark rest) :
    u.followedBy rest = u.withOnly (String.ofList (pathAfterHost true rest)) := by
  rw [followedBy, splitPath, span_eq_self free]
  rfl

theorem noMark_iff : NoMark rest ↔
    (u.followedBy rest).query = none ∧ (u.followedBy rest).fragment = none := by
  constructor
  · intro free
    rw [followedBy_of_noMark free]
    exact ⟨rfl, rfl⟩
  · rintro ⟨query, fragment⟩
    obtain ⟨path, behind, rfl, all, stops⟩ := exists_span (fun c => c != '?' && c != '#') rest
    simp only [followedBy, splitPath, span_append all stops] at query fragment
    cases behind with
    | nil => rwa [List.append_nil]
    | cons c r =>
      have mark : c = '?' ∨ c = '#' := by
        have stop := stops c rfl
        simp only [Bool.and_eq_false_iff, bne_eq_false_iff_eq] at stop
        exact stop
      rcases mark with rfl | rfl
      · cases query
      · cases fragment

/-- Behind a query or a fragment more text leaves the path as it is. -/
theorem path_followedBy_append (marked : ¬ NoMark rest) (more : List Char) :
    (u.followedBy (rest ++ more)).path = (u.followedBy rest).path := by
  simp only [followedBy, splitPath_append_of_mark marked]

end Followed

/-! ## Longer paths -/

/-- The segments before a slash are the same whatever follows it. -/
theorem exists_segments_append (cs : List Char) : ∃ first before,
    (first :: before).map (·.1) = (segments true cs).map (·.1) ∧
      ∀ r, segments true (cs ++ '/' :: r) = first :: before ++ segments true r := by
  induction cs with
  | nil =>
    exact ⟨([], true), [], rfl, fun r => by
      rw [List.nil_append, segments, if_pos (.inl rfl)]
      rfl⟩
  | cons c cs ih =>
    obtain ⟨first, before, same, all⟩ := ih
    by_cases slash : c = '/' ∨ (true = true ∧ c = '\\')
    · refine ⟨([], true), first :: before, ?_, fun r => ?_⟩
      · rw [segments, if_pos slash, List.map_cons, same, List.map_cons]
      · rw [List.cons_append, segments, if_pos slash, all]
        rfl
    · obtain ⟨head, rest, parts⟩ := List.exists_cons_of_ne_nil (segments_ne_nil true cs)
      rw [parts, List.map_cons, List.map_cons] at same
      obtain ⟨here, behind⟩ := List.cons.inj same
      refine ⟨(c :: first.1, first.2), before, ?_, fun r => ?_⟩
      · rw [segments, if_neg slash, parts, List.map_cons, List.map_cons, here, behind]
      · rw [List.cons_append, segments, if_neg slash, all]
        rfl

theorem resolve_append (segs segs' : List (List Char × Bool)) (done : List (List Char)) :
    resolve (segs ++ segs') done = resolve segs' (resolve segs done).reverse := by
  induction segs generalizing done with
  | nil => rw [List.nil_append, resolve, List.reverse_reverse]
  | cons seg segs ih =>
    obtain ⟨s, slash⟩ := seg
    rw [List.cons_append, resolve, resolve]
    split <;> exact ih _

/-- A path that is put behind what follows a server comes behind a path that
does not depend on it. -/
theorem exists_path_before {cs : List Char} (ends : ∀ c ∈ cs.head?, isSlash c = true) :
    ∃ before, ∀ path, NormalPath path → pathAfterHost true (cs ++ path) = before ++ path := by
  cases cs with
  | nil => exact ⟨[], fun path normal => normal.pathAfterHost_eq⟩
  | cons c r =>
    have slash : c = '/' ∨ (true = true ∧ c = '\\') := by simpa [isSlash] using ends c rfl
    obtain ⟨first, before, -, all⟩ := exists_segments_append r
    refine ⟨pathText (resolve (first :: before) []), ?_⟩
    rintro path ⟨s, rest, rfl, normal⟩
    rw [List.cons_append, pathAfterHost, if_pos slash, pathOf, pathText_cons, all, resolve_append,
      resolve_segments normal, List.reverse_reverse, ← pathText_cons]
    exact List.flatMap_append

/-! ## Reading with a path behind -/

section Read

variable {front : String} {p : Pieces} (counts : leading front.toList = p.text)
  (among : p.scheme ∈ network)

include counts among

/-- A path behind a text goes behind what follows the server. -/
theorem read_append {path : String} (normal : NormalPath path.toList) : read (front ++ path) =
    (ofAuthority p.scheme p.server).map (·.followedBy (p.rest ++ path.toList)) := by
  obtain ⟨r, slash⟩ := normal.exists_eq_cons
  have ends : ∀ c ∈ path.toList.head?, endsHost true c = true := fun c mem => by
    rw [slash] at mem
    cases mem
    rfl
  have visible : ∀ c ∈ path.toList, 0x20 < c.toNat := fun c mem => by
    rcases normal.chars c mem with rfl | stays
    · decide
    · exact stays.visible (by decide)
  have counts' := significant_append front (by simp [slash]) visible
  rw [String.ofList_toList, counts, ← p.text_append ends] at counts'
  exact (p.append path.toList ends).read_eq counts' among

/-- Where there is neither a query nor a fragment, all paths behind a text
come behind one path. -/
theorem exists_read_append (free : NoMark p.rest) :
    ∃ before, ∀ path : String, NormalPath path.toList → read (front ++ path) =
      (ofAuthority p.scheme p.server).map (·.withOnly (before ++ path)) := by
  obtain ⟨before, all⟩ := exists_path_before fun c mem =>
    isSlash_of_noMark (p.ends c mem) (free c (List.mem_of_mem_head? mem))
  refine ⟨String.ofList before, fun path normal => ?_⟩
  rw [read_append counts among normal]
  congr 1
  funext v
  rw [followedBy_of_noMark (noMark_append.mpr ⟨free, normal.noMark⟩), all _ normal,
    String.ofList_append, String.ofList_toList]

end Read

end AttackMap.Url
