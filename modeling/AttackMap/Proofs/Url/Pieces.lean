import AttackMap.Proofs.Url.Written

/-!
# The pieces of a URL's text

The text of a URL with a server falls into the name of its scheme, the
slashes, the server and what follows the server (`Pieces`). The server is
read apart from what follows it (`ofAuthority_append`), so the URL is what is
read of the server alone with other text behind it (`Pieces.read_eq`).

More text at the end is more of the last piece (`Pieces.append`), and fewer
slashes at the end are less of it (`Pieces.exists_without`).
-/

namespace AttackMap.Url

/-! ## Up to a character -/

theorem span_eq_self {p : Char → Bool} {cs : List Char} (inside : ∀ c ∈ cs, p c = true) :
    cs.span p = (cs, []) := by
  have ends : ∀ c ∈ [].head?, p c = false := fun _ => nofun
  have parts := span_append inside ends
  rwa [List.append_nil] at parts

/-- A text up to the first character that is not meant, and from there. -/
theorem exists_span (p : Char → Bool) (cs : List Char) : ∃ part rest, cs = part ++ rest ∧
    (∀ c ∈ part, p c = true) ∧ ∀ c ∈ rest.head?, p c = false := by
  refine ⟨cs.takeWhile p, cs.dropWhile p, List.takeWhile_append_dropWhile.symm,
    fun c mem => List.mem_takeWhile_imp mem, fun c mem => ?_⟩
  have head := List.head?_dropWhile_not p cs
  rw [Option.mem_def.mp mem] at head
  exact head

theorem dropWhile_append_eq {p : Char → Bool} {part rest : List Char}
    (inside : ∀ c ∈ part, p c = true) (stops : ∀ c ∈ rest.head?, p c = false) :
    (part ++ rest).dropWhile p = rest := by
  have parts := span_append inside stops
  rw [List.span_eq_takeWhile_dropWhile] at parts
  exact (Prod.mk.inj parts).2

/-! ## What follows a server -/

/-- The URL with other text behind its server. -/
def followedBy (u : Url) (rest : List Char) : Url :=
  { u with
    path := String.ofList (pathAfterHost true (splitPath rest).1)
    query := (tail true (splitPath rest).2).1
    fragment := (tail true (splitPath rest).2).2 }

/-- The URL with another path and nothing behind it. -/
def withOnly (u : Url) (path : String) : Url := { u with path, query := none, fragment := none }

theorem withOnly_eq_iff {u v : Url} {path path' : String} :
    u.withOnly path = v.withOnly path' ↔
      u.scheme = v.scheme ∧ u.authority = v.authority ∧ path = path' := by
  simp [withOnly]

theorem notDigit_of_endsHost {c : Char} (ends : endsHost true c = true) :
    (Text.decimalDigit? c).isSome = false := by
  simp only [endsHost, Bool.true_and, Bool.or_eq_true, beq_iff_eq] at ends
  rcases ends with ((rfl | rfl) | rfl) | rfl <;> rfl

theorem ne_of_low {c x : Char} (low : c.toNat ≤ 0x20) (high : 0x20 < x.toNat) : c ≠ x := by
  rintro rfl
  exact absurd low (Nat.not_le.mpr high)

/-- No blank and no control ends a server. -/
theorem goesOn_of_low {c : Char} (low : c.toNat ≤ 0x20) : endsHost true c = false := by
  simp [endsHost, ne_of_low low (x := '/') (by decide), ne_of_low low (x := '?') (by decide),
    ne_of_low low (x := '#') (by decide), ne_of_low low (x := '\\') (by decide)]

/-! ## The server -/

section Port

variable {digits : List Char} (all : ∀ c ∈ digits, (Text.decimalDigit? c).isSome = true)
  (scheme : String)

include all

theorem port_of_ended {rest : List Char} (ends : ∀ c ∈ rest.head?, endsHost true c = true) :
    port scheme (digits ++ rest) =
      let n := (Text.number? 10 digits).getD 0
      if 65535 < n then .error .port
      else .ok (if digits.isEmpty then none else explicitPort scheme (some n), rest) := by
  have parts := span_append all fun c mem => notDigit_of_endsHost (ends c mem)
  simp only [port, parts]
  cases rest with
  | nil => simp
  | cons c r => simp [ends c rfl]

/-- What is neither a digit nor an end is no part of a port. -/
theorem port_of_goesOn {c : Char} (other : (Text.decimalDigit? c).isSome = false)
    (goesOn : endsHost true c = false) (rest : List Char) :
    port scheme (digits ++ c :: rest) = .error .port := by
  have stops : ∀ d ∈ (c :: rest).head?, (Text.decimalDigit? d).isSome = false := fun d mem =>
    Option.some.inj mem ▸ other
  have parts := span_append all stops
  simp only [port, parts]
  simp [goesOn]

end Port

section Server

variable {front rest : List Char} (inside : ∀ c ∈ front, endsHost true c = false)
  (ends : ∀ c ∈ rest.head?, endsHost true c = true)

include inside

theorem span_server : front.span (!endsHost true ·) = (front, []) :=
  span_eq_self fun c mem => by simp [inside c mem]

theorem goesOn_splitUser : ∀ c ∈ (splitUser true front).2, endsHost true c = false := by
  rw [splitUser, span_server inside]
  dsimp only
  split
  · intro c mem
    rw [List.append_nil, List.mem_reverse] at mem
    exact inside c (List.mem_reverse.mp (List.takeWhile_subset _ mem))
  · exact inside

/-- What follows a host is a port or nothing. -/
theorem splitHost_ends (bracket : Bool) : (splitHost true bracket front).2 = [] ∨
    ∃ r, (splitHost true bracket front).2 = ':' :: r ∧ ∀ c ∈ r, endsHost true c = false := by
  induction front generalizing bracket with
  | nil => exact .inl rfl
  | cons c front ih =>
    obtain ⟨here, behind⟩ := List.forall_mem_cons.mp inside
    rw [splitHost]
    split
    · next stops =>
      rw [here] at stops
      obtain ⟨rfl, -⟩ := stops.resolve_left Bool.false_ne_true
      exact .inr ⟨front, rfl, behind⟩
    · exact ih behind _

include ends

theorem splitUser_append : splitUser true (front ++ rest) =
    ((splitUser true front).1, (splitUser true front).2 ++ rest) := by
  have parts : (front ++ rest).span (!endsHost true ·) = (front, rest) :=
    span_append (fun c mem => by simp [inside c mem]) fun c mem => by simp [ends c mem]
  rw [splitUser, splitUser, parts, span_server inside]
  dsimp only
  split
  · rw [List.append_nil]
  · rfl

theorem splitHost_append (bracket : Bool) : splitHost true bracket (front ++ rest) =
    ((splitHost true bracket front).1, (splitHost true bracket front).2 ++ rest) := by
  induction front generalizing bracket with
  | nil =>
    cases rest with
    | nil => rfl
    | cons c r =>
      have none : splitHost true bracket [] = ([], []) := by cases bracket <;> rfl
      rw [none, List.nil_append, splitHost, if_pos (.inl (ends c rfl))]
  | cons c front ih =>
    obtain ⟨here, behind⟩ := List.forall_mem_cons.mp inside
    rw [List.cons_append]
    simp only [splitHost, ih behind]
    split <;> rfl

/-- A port ends with the server. -/
theorem port_append (scheme : String) :
    port scheme (front ++ rest) = (port scheme front).map (fun p => (p.1, rest)) ∧
      ∀ p, port scheme front = .ok p → p.2 = [] := by
  obtain ⟨digits, behind, rfl, all, stops⟩ :=
    exists_span (fun c => (Text.decimalDigit? c).isSome) front
  cases behind with
  | nil =>
    have nothing : ∀ c ∈ [].head?, endsHost true c = true := fun _ => nofun
    have alone := port_of_ended all scheme nothing
    rw [List.append_nil] at alone ⊢
    rw [port_of_ended all scheme ends, alone]
    dsimp only
    split
    · exact ⟨rfl, fun p is => nomatch is⟩
    · exact ⟨rfl, fun p is => Except.ok.inj is ▸ rfl⟩
  | cons c behind =>
    have goesOn : endsHost true c = false := inside c (by simp)
    rw [List.append_assoc, List.cons_append, port_of_goesOn all scheme (stops c rfl) goesOn,
      port_of_goesOn all scheme (stops c rfl) goesOn]
    exact ⟨rfl, fun p is => nomatch is⟩

/-- The server is read apart from what follows it. -/
theorem ofAuthority_append {scheme : String} (isSpecial : special.contains scheme = true) :
    ofAuthority scheme (front ++ rest) = (ofAuthority scheme front).map (·.followedBy rest) := by
  have goesOn := goesOn_splitUser inside
  rw [ofAuthority_eq isSpecial, ofAuthority_eq isSpecial, splitUser_append inside ends]
  dsimp only
  rw [splitHost_append goesOn ends]
  dsimp only
  split
  · rfl
  · cases Host.ofSpecial (splitHost true false (splitUser true front).2).1 with
    | error r => rfl
    | ok host =>
      rcases splitHost_ends goesOn false with nothing | ⟨r, colon, behind⟩
      · have appended : portAfterHost scheme rest = .ok (none, rest) := by
          refine portAfterHost_of_ne ?_
          rintro r rfl
          cases ends ':' rfl
        rw [nothing, List.nil_append, appended]
        rfl
      · rw [colon, List.cons_append, portAfterHost, portAfterHost]
        obtain ⟨appended, alone⟩ := port_append behind ends scheme
        rw [appended]
        cases is : port scheme r with
        | error e => rfl
        | ok p =>
          obtain ⟨number, after⟩ := p
          cases alone _ is
          rfl

end Server

/-! ## Scheme and slashes -/

/-- A character in the name of a scheme. -/
def inSchemeName (c : Char) : Bool := c.isAlphanum || c == '+' || c == '-' || c == '.'

/-- A scheme is a name that begins with a letter, before the first colon. -/
theorem scheme?_eq_some_iff {cs rest : List Char} {scheme : String} :
    scheme? cs = some (scheme, rest) ↔
      ∃ name, cs = name ++ ':' :: rest ∧ (∀ c ∈ name, inSchemeName c = true) ∧
        (∃ c ∈ name.head?, c.isAlpha = true) ∧ scheme = String.ofList (name.map Char.toLower) := by
  constructor
  · intro is
    have whole := List.prefix_iff_eq_append.mp (List.takeWhile_prefix inSchemeName (l := cs))
    have inName : ∀ c ∈ cs.takeWhile inSchemeName, inSchemeName c = true := fun c mem =>
      List.mem_takeWhile_imp mem
    unfold scheme? at is
    dsimp only at is
    split at is
    · next c r rest' name behind =>
      split at is
      · next letter =>
        change cs.takeWhile inSchemeName = c :: r at name
        change cs.drop (cs.takeWhile inSchemeName).length = ':' :: rest' at behind
        rw [behind] at whole
        cases is
        exact ⟨_, whole.symm, inName, ⟨c, by rw [name]; rfl, letter⟩, rfl⟩
      · cases is
    · cases is
  · rintro ⟨name, rfl, inName, ⟨c, head, letter⟩, rfl⟩
    have first : (name ++ ':' :: rest).takeWhile inSchemeName = name := by
      rw [List.takeWhile_append_of_pos inName]
      simp [inSchemeName]
    obtain ⟨r, rfl⟩ := List.head?_eq_some_iff.mp head
    unfold inSchemeName at first
    simp only [scheme?, first, List.drop_left, letter, if_true]

/-- A slash before the server, in a scheme of the web. -/
def isSlash (c : Char) : Bool := c == '/' || c == '\\'

theorem endsHost_of_isSlash {c : Char} (slash : isSlash c = true) : endsHost true c = true := by
  simp only [isSlash, Bool.or_eq_true, beq_iff_eq] at slash
  rcases slash with rfl | rfl <;> rfl

/-- The text of a URL with a server, in its pieces. -/
structure Pieces where
  name : List Char
  slashes : List Char
  /-- User, host and port. -/
  server : List Char
  /-- Path, query and fragment. -/
  rest : List Char
  inName : ∀ c ∈ name, inSchemeName c = true
  letter : ∃ c ∈ name.head?, c.isAlpha = true
  slash : ∀ c ∈ slashes, isSlash c = true
  filled : server ≠ []
  inside : ∀ c ∈ server, endsHost true c = false
  ends : ∀ c ∈ rest.head?, endsHost true c = true

namespace Pieces

def scheme (p : Pieces) : String := String.ofList (p.name.map Char.toLower)

def text (p : Pieces) : List Char := p.name ++ ':' :: (p.slashes ++ (p.server ++ p.rest))

variable {p : Pieces} {s : String}

/-- The slashes end with the server. -/
theorem dropWhile_isSlash (p : Pieces) :
    (p.slashes ++ (p.server ++ p.rest)).dropWhile isSlash = p.server ++ p.rest := by
  obtain ⟨c, r, server⟩ := List.exists_cons_of_ne_nil p.filled
  have goesOn := p.inside c (server ▸ List.mem_cons_self)
  have noSlash : isSlash c = false := by
    rw [← Bool.not_eq_true]
    intro slash
    rw [endsHost_of_isSlash slash] at goesOn
    cases goesOn
  rw [List.dropWhile_append_of_pos p.slash, server, List.cons_append, List.dropWhile_cons, noSlash]
  rfl

/-- A text in pieces is read as its server, followed by the rest. -/
theorem read_eq (counts : significant s = p.text) (among : p.scheme ∈ network) :
    read s = (ofAuthority p.scheme p.server).map (·.followedBy p.rest) := by
  obtain ⟨isSpecial, notFile⟩ := isSpecial_of_network _ among
  have named : scheme? p.text = some (p.scheme, p.slashes ++ (p.server ++ p.rest)) :=
    scheme?_eq_some_iff.mpr ⟨p.name, rfl, p.inName, p.letter, rfl⟩
  have slashes := p.dropWhile_isSlash
  unfold isSlash at slashes
  rw [read, counts, named]
  simp only [if_neg notFile, isSpecial, if_true, slashes]
  exact ofAuthority_append p.inside p.ends isSpecial

end Pieces

/-- Without a server there is no URL. -/
theorem ofAuthority_nil {scheme : String} (isSpecial : special.contains scheme = true) :
    ofAuthority scheme [] = .error .emptyHost := by
  rw [ofAuthority_eq isSpecial]
  rfl

/-- A text that is read as a URL with a server is in pieces, and the server
is read alone too. -/
theorem exists_pieces {s : String} {u : Url} (is : read s = .ok u) (among : u.scheme ∈ network) :
    ∃ (p : Pieces) (v : Url), significant s = p.text ∧ p.scheme = u.scheme ∧
      ofAuthority p.scheme p.server = .ok v ∧ u = v.followedBy p.rest := by
  obtain ⟨p, counts, scheme⟩ : ∃ p : Pieces, significant s = p.text ∧ p.scheme = u.scheme := by
    unfold read at is
    split at is
    · cases is
    · next scheme rest named =>
      split at is
      · rw [scheme_of_ofFile is] at among
        exact absurd rfl (isSpecial_of_network _ among).2
      · split at is
        · next isSpecial =>
          have same := scheme_of_ofAuthority is
          obtain ⟨name, text, inName, letter, rfl⟩ := scheme?_eq_some_iff.mp named
          obtain ⟨slashes, behind, rfl, slash, noSlash⟩ := exists_span isSlash rest
          have dropped := dropWhile_append_eq slash noSlash
          unfold isSlash at dropped
          obtain ⟨server, after, rfl, inside, ends⟩ := exists_span (!endsHost true ·) behind
          have inside : ∀ c ∈ server, endsHost true c = false := by simpa using inside
          have ends : ∀ c ∈ after.head?, endsHost true c = true := by simpa using ends
          have filled : server ≠ [] := by
            rintro rfl
            rw [dropped, ofAuthority_append inside ends isSpecial, ofAuthority_nil isSpecial] at is
            cases is
          exact ⟨⟨name, slashes, server, after, inName, letter, slash, filled, inside, ends⟩, text,
            same.symm⟩
        · next other =>
          rw [scheme_of_ofOther is] at among
          exact absurd (isSpecial_of_network _ among).1 other
  rw [p.read_eq counts (scheme ▸ among)] at is
  cases server : ofAuthority p.scheme p.server with
  | error r =>
    rw [server] at is
    cases is
  | ok v =>
    rw [server] at is
    exact ⟨p, v, counts, scheme, server, (Except.ok.inj is).symm⟩

namespace Pieces

/-- The pieces of a text with more behind it. -/
def append (p : Pieces) (more : List Char) (ends : ∀ c ∈ more.head?, endsHost true c = true) :
    Pieces :=
  { p with
    rest := p.rest ++ more
    ends := by
      intro c mem
      cases rest : p.rest with
      | nil =>
        rw [rest] at mem
        exact ends c mem
      | cons d r =>
        rw [rest] at mem
        exact p.ends c (rest ▸ mem) }

@[simp]
theorem text_append (p : Pieces) {more : List Char}
    (ends : ∀ c ∈ more.head?, endsHost true c = true) :
    (p.append more ends).text = p.text ++ more := by
  simp [text, append]

/-- Slashes at the end do not belong to the server. -/
theorem exists_without (p : Pieces) {front slashes : List Char} (is : p.text = front ++ slashes)
    (slash : ∀ c ∈ slashes, c = '/') : ∃ q : Pieces, q.text = front ∧ q.scheme = p.scheme ∧
      q.server = p.server ∧ p.rest = q.rest ++ slashes := by
  have whole : p.name ++ ':' :: (p.slashes ++ p.server) ++ p.rest = front ++ slashes := by
    simp [← is, text]
  obtain ⟨more, rfl, rest⟩ : ∃ more, front = p.name ++ ':' :: (p.slashes ++ p.server) ++ more ∧
      p.rest = more ++ slashes := by
    rcases List.append_eq_append_iff.mp whole with inRest | ⟨more, before, all⟩
    · exact inRest
    -- the server would end with a slash
    · obtain rfl | ⟨more, c, rfl⟩ := List.eq_nil_or_concat' more
      · exact ⟨[], by rw [List.append_nil, before, List.append_nil], all.symm⟩
      · obtain ⟨server, d, is⟩ := (List.eq_nil_or_concat' p.server).resolve_left p.filled
        have last : d = c := by
          have ends := congrArg List.getLast? before
          simpa [is, List.getLast?_append, List.getLast?_cons] using ends
        have goesOn := p.inside d (by simp [is])
        rw [last, slash c (by simp [all])] at goesOn
        cases goesOn
  refine ⟨{ p with rest := more, ends := fun c mem => p.ends c ?_ }, ?_, rfl, rfl, rest⟩
  · obtain ⟨r, rfl⟩ := List.head?_eq_some_iff.mp mem
    rw [rest]
    rfl
  · simp [text]

/-- Controls at the end belong to the server if nothing follows it. -/
theorem exists_with_controls (p : Pieces) {controls : List Char}
    (low : ∀ c ∈ controls, c.toNat ≤ 0x20) : ∃ q : Pieces, q.text = p.text ++ controls ∧
      q.scheme = p.scheme ∧ ((q.server = p.server ∧ q.rest = p.rest ++ controls) ∨
        (p.rest = [] ∧ q.rest = [])) := by
  by_cases rest : p.rest = []
  · refine ⟨{ p with server := p.server ++ controls, filled := ?_, inside := ?_ }, ?_, rfl,
      .inr ⟨rest, rest⟩⟩
    · exact List.append_ne_nil_of_left_ne_nil p.filled _
    · exact List.forall_mem_append.mpr ⟨p.inside, fun c mem => goesOn_of_low (low c mem)⟩
    · simp [text, rest]
  · refine ⟨{ p with rest := p.rest ++ controls, ends := fun d mem => p.ends d ?_ }, ?_, rfl,
      .inl ⟨rfl, rfl⟩⟩
    · rwa [List.head?_append_of_ne_nil _ rest] at mem
    · simp [text]

end Pieces

end AttackMap.Url
