import AttackMap.Proofs.Url.Reading
import Mathlib.Data.List.TakeDrop

/-!
# URLs read back

The text of a URL in its one form is read as that URL (`read_text`), so a
change that keeps the form, such as another path or no query, gives the text
of a URL again.

Each part of the text ends where the next begins because it holds no
character that could be taken for the end: what could be has been encoded,
refused or taken for the end when the URL was read.
-/

namespace AttackMap.Url

/-! ## Where parts end -/

/-- A part ends at the first character that does not belong to it. -/
theorem span_append {p : Char → Bool} {part rest : List Char} (inside : ∀ c ∈ part, p c = true)
    (ends : ∀ c ∈ rest.head?, p c = false) : (part ++ rest).span p = (part, rest) := by
  rw [List.span_eq_takeWhile_dropWhile, List.takeWhile_append_of_pos inside,
    List.dropWhile_append_of_pos inside]
  cases rest with
  | nil => simp
  | cons c rest => simp [ends c rfl]

theorem Stays.ne {encoded : Char → Bool} {c x : Char} (stays : Stays encoded c)
    (always : encoded x = true) : c ≠ x := by
  rintro rfl
  rw [stays.2] at always
  cases always

/-- Where blanks and controls are encoded, none stays. -/
theorem Stays.visible {encoded : Char → Bool} {c : Char} (stays : Stays encoded c)
    (hides : ∀ n < 0x21, encoded (Char.ofNat n) = true) : 0x20 < c.toNat := by
  by_contra low
  have hidden := hides c.toNat (by omega)
  rw [Char.ofNat_toNat, stays.2] at hidden
  cases hidden

/-- A character before the path that is no mark of a part. -/
structure BeforePath (c : Char) : Prop where
  goesOn : endsHost true c = false
  ne_at : c ≠ '@'
  visible : 0x20 < c.toNat

theorem Stays.beforePath {c : Char} (stays : Stays inUserInfo c) : BeforePath c := by
  refine ⟨?_, stays.ne (by decide), stays.visible (by decide)⟩
  have slash := stays.ne (x := '/') (by decide)
  have query := stays.ne (x := '?') (by decide)
  have fragment := stays.ne (x := '#') (by decide)
  have backslash := stays.ne (x := '\\') (by decide)
  simp [endsHost, slash, query, fragment, backslash]

theorem beforePath_of_isForbidden {c : Char} (free : Domain.isForbidden c = false) :
    BeforePath c := by
  simp only [Domain.isForbidden, Bool.or_eq_false_iff, decide_eq_false_iff_not] at free
  obtain ⟨⟨low, -⟩, free⟩ := free
  have other (x : Char) (mem : ['#', '/', ':', '<', '>', '?', '@', '[', '\\', ']', '^', '|',
      '%'].contains x = true) : c ≠ x := by
    rintro rfl
    rw [mem] at free
    cases free
  refine ⟨?_, other _ (by decide), by omega⟩
  simp [endsHost, other '/' (by decide), other '?' (by decide), other '#' (by decide),
    other '\\' (by decide)]

theorem beforePath_of_isHex {c : Char} (hex : Host.IsHex c) : BeforePath c := by
  obtain ⟨d, small, rfl⟩ := hex
  have all : ∀ d < 16, endsHost true d.digitChar = false ∧ d.digitChar ≠ '@' ∧
      0x20 < d.digitChar.toNat := by decide
  obtain ⟨goesOn, other, visible⟩ := all d small
  exact ⟨goesOn, other, visible⟩

/-! ## User, host and port -/

/-- What stands before the last `@`, if there is one. -/
def Authority.userPart (a : Authority) : Option (List Char) :=
  if a.username.isEmpty && a.password.isEmpty then none
  else some (a.username.toList ++ if a.password.isEmpty then [] else ':' :: a.password.toList)

theorem Authority.userText_eq (a : Authority) : a.userText = a.userPart.elim [] (· ++ ['@']) := by
  unfold userText userPart
  split <;> simp

theorem Authority.Sound.beforePath {scheme : String} {a : Authority} (sound : a.Sound scheme) :
    ∀ cs ∈ a.userPart, ∀ c ∈ cs, BeforePath c := by
  intro cs is c mem
  unfold userPart at is
  split at is
  · cases is
  · cases is
    rcases List.mem_append.mp mem with mem | mem
    · exact (sound.username c mem).beforePath
    · split at mem
      · cases mem
      · rcases List.mem_cons.mp mem with rfl | mem
        · exact ⟨by decide, by decide, by decide⟩
        · exact (sound.password c mem).beforePath

/-- Nothing before the path ends what stands before it. -/
theorem goesOn_before {user : Option (List Char)} {front : List Char}
    (inUser : ∀ cs ∈ user, ∀ c ∈ cs, BeforePath c) (inFront : ∀ c ∈ front, BeforePath c) :
    ∀ c ∈ user.elim [] (· ++ ['@']) ++ front, endsHost true c = false ∧ 0x20 < c.toNat := by
  intro c mem
  cases user with
  | none => exact ⟨(inFront c mem).goesOn, (inFront c mem).visible⟩
  | some cs =>
    rcases List.mem_append.mp mem with mem | mem
    · rcases List.mem_append.mp mem with mem | mem
      · exact ⟨(inUser cs rfl c mem).goesOn, (inUser cs rfl c mem).visible⟩
      · rw [List.mem_singleton.mp mem]
        decide
    · exact ⟨(inFront c mem).goesOn, (inFront c mem).visible⟩

/-- The user is read up to the last `@` before the path. -/
theorem splitUser_eq {user : Option (List Char)} {front rest : List Char}
    (inUser : ∀ cs ∈ user, ∀ c ∈ cs, BeforePath c) (inFront : ∀ c ∈ front, BeforePath c)
    (ends : ∀ c ∈ rest.head?, endsHost true c = true) :
    splitUser true (user.elim [] (· ++ ['@']) ++ (front ++ rest)) = (user, front ++ rest) := by
  have before := goesOn_before inUser inFront
  have parts : (user.elim [] (· ++ ['@']) ++ front ++ rest).span (!endsHost true ·) =
      (user.elim [] (· ++ ['@']) ++ front, rest) :=
    span_append (fun c mem => by simp [(before c mem).1]) fun c mem => by simp [ends c mem]
  have noMark : '@' ∉ front := fun mem => (inFront _ mem).ne_at rfl
  rw [← List.append_assoc, splitUser, parts]
  cases user with
  | none => simp [noMark]
  | some cs =>
    have last : (front.reverse ++ '@' :: cs.reverse).takeWhile (· != '@') = front.reverse := by
      rw [List.takeWhile_append_of_pos]
      · simp
      · intro c mem
        simpa using (inFront c (List.mem_reverse.mp mem)).ne_at
    have before : cs.length + (front.length + 1) - front.length - 1 = cs.length := by omega
    simp [last, before]

theorem userInfo_eq {name : List Char} {r : List Char} (named : ∀ c ∈ name, Stays inUserInfo c)
    (ends : ∀ c ∈ r.head?, c = ':') (rest : ∀ c ∈ r.drop 1, Stays inUserInfo c) :
    userInfo (name ++ r) = (String.ofList name, String.ofList (r.drop 1)) := by
  have parts : (name ++ r).span (· != ':') = (name, r) := by
    refine span_append (fun c mem => ?_) fun c mem => by simp [ends c mem]
    simpa using (named c mem).ne (x := ':') (by decide)
  simp only [userInfo, parts, percentEncode_of_stays named, percentEncode_of_stays rest]

/-- User name and password are read from their text. -/
theorem userInfo_userPart {scheme : String} {a : Authority} (sound : a.Sound scheme) :
    (a.userPart.map userInfo).getD ("", "") = (a.username, a.password) := by
  unfold Authority.userPart
  split
  · next none =>
    simp only [Bool.and_eq_true, String.isEmpty_iff] at none
    simp [none]
  · split
    · next empty =>
      have read := userInfo_eq (r := []) sound.username (fun c mem => nomatch mem)
        (fun c mem => nomatch mem)
      rw [String.isEmpty_iff] at empty
      rw [Option.map_some, read, empty]
      simp
    · have read := userInfo_eq (r := ':' :: a.password.toList) sound.username
        (fun c mem => (Option.some.inj mem).symm) sound.password
      rw [Option.map_some, read]
      simp

/-- A host out of brackets is read up to its end. -/
theorem splitHost_open {cs rest : List Char}
    (inside : ∀ c ∈ cs, BeforePath c ∧ c ≠ ':' ∧ c ≠ '[')
    (ends : ∀ c ∈ rest.head?, endsHost true c = true ∨ c = ':') :
    splitHost true false (cs ++ rest) = (cs, rest) := by
  induction cs with
  | nil =>
    cases rest with
    | nil => rfl
    | cons c r =>
      have stops := ends c rfl
      rw [List.nil_append, splitHost, if_pos (by simpa using stops)]
  | cons c cs ih =>
    obtain ⟨⟨before, noColon, noBracket⟩, inside⟩ := List.forall_mem_cons.mp inside
    rw [List.cons_append, splitHost, if_neg (by simp [before.goesOn, noColon])]
    simp [noBracket, ih inside]

/-- A host in brackets is read up to the closing one. -/
theorem splitHost_bracketed {body rest : List Char} (inside : ∀ c ∈ body, BeforePath c ∧ c ≠ ']')
    (ends : ∀ c ∈ rest.head?, endsHost true c = true ∨ c = ':') :
    splitHost true false ('[' :: body ++ [']'] ++ rest) = ('[' :: body ++ [']'], rest) := by
  have opened : splitHost true true (body ++ ']' :: rest) = (body ++ [']'], rest) := by
    induction body with
    | nil =>
      have closed := splitHost_open (List.forall_mem_nil _) ends
      rw [List.nil_append] at closed
      rw [List.nil_append, splitHost, if_neg (by decide)]
      simp [closed]
    | cons c body ih =>
      obtain ⟨⟨before, noBracket⟩, inside⟩ := List.forall_mem_cons.mp inside
      have within : (decide (c = '[') || (true && c != ']')) = true := by simp [noBracket]
      rw [List.cons_append, splitHost, if_neg (by simp [before.goesOn])]
      simp only [within, ih inside, List.cons_append]
  rw [List.append_assoc, List.singleton_append, List.cons_append, splitHost, if_neg (by decide)]
  simp [opened]

theorem beforePath_of_small {cs : List Char} (small : ∀ c ∈ cs, c = '.' ∨ Domain.Small c) :
    ∀ c ∈ cs, BeforePath c ∧ c ≠ ':' ∧ c ≠ '[' := by
  intro c mem
  have free : Domain.isForbidden c = false := by
    rcases small c mem with rfl | small
    · rfl
    · exact small.isForbidden
  refine ⟨beforePath_of_isForbidden free, ?_, ?_⟩
  · rintro rfl
    cases free
  · rintro rfl
    cases free

theorem beforePath_of_mem_ipv6Text {groups : List Nat} :
    ∀ c ∈ Host.ipv6Text groups, BeforePath c ∧ c ≠ ']' := by
  intro c mem
  rcases Host.isHex_of_mem_ipv6Text mem with rfl | hex
  · exact ⟨⟨by decide, by decide, by decide⟩, by decide⟩
  · refine ⟨beforePath_of_isHex hex, ?_⟩
    obtain ⟨d, small, rfl⟩ := hex
    have all : ∀ d < 16, d.digitChar ≠ ']' := by decide
    exact all d small

theorem beforePath_of_mem_text {h : Host} (sound : h.Sound) : ∀ c ∈ h.text, BeforePath c := by
  cases sound with
  | name s small => exact fun c mem => (beforePath_of_small small c mem).1
  | ipv4 n => exact fun c mem => (beforePath_of_small (Host.ipv4Text_form n).1 c mem).1
  | ipv6 groups =>
    intro c mem
    simp only [Host.text, List.mem_append, List.mem_cons, List.not_mem_nil, or_false] at mem
    rcases mem with (rfl | mem) | rfl
    · exact ⟨by decide, by decide, by decide⟩
    · exact (beforePath_of_mem_ipv6Text c mem).1
    · exact ⟨by decide, by decide, by decide⟩

theorem text_ne_nil {h : Host} (sound : h.Sound) : h.text ≠ [] := by
  cases sound with
  | name s _ _ filled => exact filled
  | ipv4 n => exact Host.ipv4Text_ne_nil n
  | ipv6 groups => exact List.append_ne_nil_of_left_ne_nil (List.cons_ne_nil _ _) _

/-- A sound host is read from its text, up to a port or the path. -/
theorem splitHost_text {h : Host} (sound : h.Sound) {rest : List Char}
    (ends : ∀ c ∈ rest.head?, endsHost true c = true ∨ c = ':') :
    splitHost true false (h.text ++ rest) = (h.text, rest) := by
  cases sound with
  | name s small => exact splitHost_open (beforePath_of_small small) ends
  | ipv4 n => exact splitHost_open (beforePath_of_small (Host.ipv4Text_form n).1) ends
  | ipv6 groups => exact splitHost_bracketed beforePath_of_mem_ipv6Text ends

/-- The text of a port. -/
def portText (p : Option Nat) : List Char := p.elim [] fun n => ':' :: Text.decimal n

theorem beforePath_of_mem_portText (p : Option Nat) : ∀ c ∈ portText p, BeforePath c := by
  intro c mem
  cases p with
  | none => cases mem
  | some n =>
    rcases List.mem_cons.mp mem with rfl | mem
    · exact ⟨by decide, by decide, by decide⟩
    · obtain ⟨low, high⟩ := Char.isDigit_iff_toNat.mp (Text.isDigit_of_mem_decimal mem)
      have other (x : Char) (far : ¬ ('0'.toNat ≤ x.toNat ∧ x.toNat ≤ '9'.toNat)) : c ≠ x := by
        rintro rfl
        exact far ⟨low, high⟩
      refine ⟨?_, other _ (by decide), Nat.lt_of_lt_of_le (by decide) low⟩
      simp [endsHost, other '/' (by decide), other '?' (by decide), other '#' (by decide),
        other '\\' (by decide)]

/-- A port that the scheme does not imply is read from its text. -/
theorem portAfterHost_portText {scheme : String} {p : Option Nat}
    (fits : ∀ n ∈ p, n ≤ 65535 ∧ some n ≠ defaultPort scheme) (r : List Char) :
    portAfterHost scheme (portText p ++ '/' :: r) = .ok (p, '/' :: r) := by
  cases p with
  | none => rfl
  | some n =>
    obtain ⟨small, other⟩ := fits n rfl
    have digits : (Text.decimal n ++ '/' :: r).span (fun c => (Text.decimalDigit? c).isSome) =
        (Text.decimal n, '/' :: r) := by
      refine span_append (fun c mem => Text.isSome_decimalDigit?_of_mem mem) fun c mem => ?_
      cases mem
      rfl
    have filled : (Text.decimal n).isEmpty = false := by
      rw [← Bool.not_eq_true, List.isEmpty_iff]
      exact Nat.toDigits_ne_nil
    rw [portText, Option.elim_some, List.cons_append, portAfterHost, port, digits]
    simp only [Text.number?_decimal, Option.getD_some, filled, Bool.false_eq_true, if_false,
      explicitPort, if_neg other]
    rw [if_neg]
    rintro (large | unended)
    · omega
    · cases unended

/-! ## Path, query and fragment -/

/-- The text of a query. -/
def queryText (q : Option String) : List Char := q.elim [] fun q => '?' :: q.toList

/-- The text of a fragment. -/
def fragmentText (f : Option String) : List Char := f.elim [] fun f => '#' :: f.toList

theorem ends_fragmentText (f : Option String) : ∀ c ∈ (fragmentText f).head?, c = '#' := by
  cases f with
  | none => exact fun c mem => nomatch mem
  | some f => exact fun c mem => (Option.some.inj mem).symm

theorem ends_queryText (q f : Option String) :
    ∀ c ∈ (queryText q ++ fragmentText f).head?, c = '?' ∨ c = '#' := by
  cases q with
  | none => exact fun c mem => .inr (ends_fragmentText f c mem)
  | some q => exact fun c mem => .inl (Option.some.inj mem).symm

/-- A path is read up to a query or fragment. -/
theorem splitPath_text {path : List Char} (normal : NormalPath path) (q f : Option String) :
    splitPath (path ++ (queryText q ++ fragmentText f)) = (path, queryText q ++ fragmentText f) := by
  refine span_append (fun c mem => ?_) fun c mem => ?_
  · rcases normal.chars c mem with rfl | stays
    · rfl
    · simp [stays.ne (x := '?') (by decide), stays.ne (x := '#') (by decide)]
  · rcases ends_queryText q f c mem with rfl | rfl <;> rfl

/-- Query and fragment are read from their text. -/
theorem tail_text {q f : Option String} (query : ∀ s ∈ q, ∀ c ∈ s.toList, Stays inSpecialQuery c)
    (fragment : ∀ s ∈ f, ∀ c ∈ s.toList, Stays inFragment c) :
    tail true (queryText q ++ fragmentText f) = (q, f) := by
  have once (s : String) (mem : s ∈ f) :
      String.ofList (percentEncode inFragment s.toList) = s := by
    rw [percentEncode_of_stays (fragment s mem), String.ofList_toList]
  cases q with
  | none =>
    cases f with
    | none => rfl
    | some f => simp [queryText, fragmentText, tail, once f rfl]
  | some q =>
    have parts : (q.toList ++ fragmentText f).span (· != '#') = (q.toList, fragmentText f) := by
      refine span_append (fun c mem => ?_) fun c mem => ?_
      · simpa using (query q rfl c mem).ne (x := '#') (by decide)
      · simp [ends_fragmentText f c mem]
    have same : percentEncode inSpecialQuery q.toList = q.toList :=
      percentEncode_of_stays (query q rfl)
    simp only [queryText, Option.elim_some, List.cons_append, tail, parts, if_true, same,
      String.ofList_toList]
    cases f with
    | none => rfl
    | some f => simp [fragmentText, once f rfl]

/-! ## All together -/

/-- What follows the slashes before the host. -/
def afterSlashes (a : Authority) (h : Host) (u : Url) : List Char :=
  a.userPart.elim [] (· ++ ['@']) ++ ((h.text ++ portText a.port) ++
    (u.path.toList ++ (queryText u.query ++ fragmentText u.fragment)))

/-- The text of a URL with a host. -/
theorem toList_text {u : Url} {a : Authority} {h : Host} (authority : u.authority = some a)
    (host : a.host = some h) :
    u.text.toList = u.scheme.toList ++ ':' :: '/' :: '/' :: afterSlashes a h u := by
  simp [text, authority, host, Authority.text, Authority.userText_eq, afterSlashes, portText,
    queryText, fragmentText]

/-- The parts that are read are those of the URL. -/
theorem assembled_text {u : Url} (sound : u.Sound) {a : Authority} {h : Host}
    (authority : u.authority = some a) (host : a.host = some h) :
    assembled u.scheme a.userPart h a.port
      (u.path.toList ++ (queryText u.query ++ fragmentText u.fragment)) = u := by
  obtain ⟨-, ⟨a', is, soundA⟩, path, query, fragment⟩ := sound
  cases authority.symm.trans is
  rw [assembled, splitPath_text path, userInfo_userPart soundA]
  dsimp only
  rw [path.pathAfterHost_eq, tail_text query fragment, String.ofList_toList, ← host, ← authority]

theorem ofAuthority_text {u : Url} (sound : u.Sound) {a : Authority} {h : Host}
    (authority : u.authority = some a) (host : a.host = some h) :
    ofAuthority u.scheme (afterSlashes a h u) = .ok u := by
  have whole := assembled_text sound authority host
  obtain ⟨among, ⟨a', is, soundA⟩, path, query, fragment⟩ := sound
  cases authority.symm.trans is
  obtain ⟨h', is', soundH⟩ := soundA.host
  cases host.symm.trans is'
  obtain ⟨r, slash⟩ := path.exists_eq_cons
  have inUser : ∀ cs ∈ a.userPart, ∀ c ∈ cs, BeforePath c := soundA.beforePath
  have inFront : ∀ c ∈ h.text ++ portText a.port, BeforePath c :=
    List.forall_mem_append.mpr
      ⟨beforePath_of_mem_text soundH, beforePath_of_mem_portText a.port⟩
  have afterHost : ∀ c ∈ (portText a.port ++ (u.path.toList ++
      (queryText u.query ++ fragmentText u.fragment))).head?, endsHost true c = true ∨ c = ':' := by
    intro c mem
    rw [slash] at mem
    cases port : a.port with
    | none =>
      rw [port] at mem
      cases mem
      exact .inl rfl
    | some n =>
      rw [port] at mem
      cases mem
      exact .inr rfl
  have ends : ∀ c ∈ (u.path.toList ++ (queryText u.query ++ fragmentText u.fragment)).head?,
      endsHost true c = true := by
    intro c mem
    rw [slash] at mem
    cases mem
    rfl
  have user := splitUser_eq inUser inFront ends
  have named : h.text.isEmpty = false := by
    rw [← Bool.not_eq_true, List.isEmpty_iff]
    exact text_ne_nil soundH
  have port := portAfterHost_portText soundA.port (r ++
    (queryText u.query ++ fragmentText u.fragment))
  rw [← List.cons_append, ← slash] at port
  rw [ofAuthority_eq (isSpecial_of_network _ among).1, afterSlashes, user]
  simp only [List.append_assoc, splitHost_text soundH afterHost, named, Bool.false_eq_true,
    if_false, Host.ofSpecial_text soundH, port]
  exact congrArg Except.ok whole

/-! ## Reading -/

theorem scheme?_network : ∀ scheme ∈ network, ∀ r : List Char,
    scheme? (scheme.toList ++ ':' :: r) = some (scheme, r) := by
  intro scheme among r
  simp only [network, List.mem_cons, List.not_mem_nil, or_false] at among
  rcases among with rfl | rfl | rfl | rfl | rfl <;> rfl

theorem dropWhile_of_forall {p : Char → Bool} {cs : List Char} (none : ∀ c ∈ cs, p c = false) :
    cs.dropWhile p = cs := by
  cases cs with
  | nil => rfl
  | cons c r => rw [List.dropWhile_cons, none c List.mem_cons_self, if_neg Bool.false_ne_true]

/-- Nothing is left out of a text without blanks and controls. -/
theorem significant_of_visible {s : String} (visible : ∀ c ∈ s.toList, 0x20 < c.toNat) :
    significant s = s.toList := by
  have high : ∀ c ∈ s.toList, decide (c.toNat ≤ 0x20) = false := fun c mem =>
    decide_eq_false (Nat.not_le.mpr (visible c mem))
  have backwards : ∀ c ∈ s.toList.reverse, decide (c.toNat ≤ 0x20) = false := fun c mem =>
    high c (List.mem_reverse.mp mem)
  simp only [significant, dropWhile_of_forall high, dropWhile_of_forall backwards,
    List.reverse_reverse]
  refine List.filter_eq_self.mpr fun c mem => ?_
  have other (x : Char) (low : x.toNat ≤ 0x20) : c ≠ x := by
    rintro rfl
    exact absurd (visible _ mem) (Nat.not_lt.mpr low)
  simp [other '\t' (by decide), other '\n' (by decide), other '\r' (by decide)]

theorem visible_queryText {q f : Option String}
    (query : ∀ s ∈ q, ∀ c ∈ s.toList, Stays inSpecialQuery c)
    (fragment : ∀ s ∈ f, ∀ c ∈ s.toList, Stays inFragment c) :
    ∀ c ∈ queryText q ++ fragmentText f, 0x20 < c.toNat := by
  intro c mem
  rcases List.mem_append.mp mem with mem | mem
  · cases q with
    | none => cases mem
    | some q =>
      rcases List.mem_cons.mp mem with rfl | mem
      · decide
      · exact (query q rfl c mem).visible (by decide)
  · cases f with
    | none => cases mem
    | some f =>
      rcases List.mem_cons.mp mem with rfl | mem
      · decide
      · exact (fragment f rfl c mem).visible (by decide)

section Whole

variable {u : Url} {a : Authority} {h : Host}

/-- What stands before the path: more than nothing, and no slash. -/
theorem beforePath_afterSlashes (soundA : a.Sound u.scheme) (soundH : h.Sound) :
    ∀ c ∈ a.userPart.elim [] (· ++ ['@']) ++ (h.text ++ portText a.port),
      endsHost true c = false ∧ 0x20 < c.toNat :=
  goesOn_before soundA.beforePath
    (List.forall_mem_append.mpr ⟨beforePath_of_mem_text soundH, beforePath_of_mem_portText a.port⟩)

theorem visible_afterSlashes (sound : u.Sound) (soundA : a.Sound u.scheme) (soundH : h.Sound) :
    ∀ c ∈ afterSlashes a h u, 0x20 < c.toNat := by
  intro c mem
  rw [afterSlashes, ← List.append_assoc] at mem
  rcases List.mem_append.mp mem with mem | mem
  · exact (beforePath_afterSlashes soundA soundH c mem).2
  · rcases List.mem_append.mp mem with mem | mem
    · rcases sound.path.chars c mem with rfl | stays
      · decide
      · exact stays.visible (by decide)
    · exact visible_queryText sound.query sound.fragment c mem

/-- The slashes before the host end with the host. -/
theorem dropWhile_afterSlashes (soundA : a.Sound u.scheme) (soundH : h.Sound) :
    ('/' :: '/' :: afterSlashes a h u).dropWhile (fun c => c == '/' || c == '\\') =
      afterSlashes a h u := by
  have filled : a.userPart.elim [] (· ++ ['@']) ++ (h.text ++ portText a.port) ≠ [] :=
    List.append_ne_nil_of_right_ne_nil _
      (List.append_ne_nil_of_left_ne_nil (text_ne_nil soundH) _)
  obtain ⟨c, front, form⟩ := List.exists_cons_of_ne_nil filled
  have goesOn := (beforePath_afterSlashes soundA soundH c (form ▸ List.mem_cons_self)).1
  have noSlash : (c == '/' || c == '\\') = false := by
    simp only [endsHost, Bool.or_eq_false_iff, Bool.true_and] at goesOn
    rw [goesOn.1.1.1, goesOn.2]
    rfl
  rw [afterSlashes, ← List.append_assoc, form, List.cons_append]
  simp only [List.dropWhile_cons, noSlash]
  rfl

end Whole

/-- The text of a URL in its one form is read as that URL. -/
theorem read_text {u : Url} (sound : u.Sound) : read u.text = .ok u := by
  obtain ⟨a, authority, soundA⟩ := sound.authority
  obtain ⟨h, host, soundH⟩ := soundA.host
  obtain ⟨isSpecial, notFile⟩ := isSpecial_of_network _ sound.scheme
  have visible : ∀ c ∈ u.text.toList, 0x20 < c.toNat := by
    rw [toList_text authority host]
    refine List.forall_mem_append.mpr ⟨?_, ?_⟩
    · have all : ∀ scheme ∈ network, scheme.toList.all (0x20 < ·.toNat) = true := by decide
      simpa using all u.scheme sound.scheme
    · simp only [List.forall_mem_cons]
      exact ⟨by decide, by decide, by decide, visible_afterSlashes sound soundA soundH⟩
  rw [read, significant_of_visible visible, toList_text authority host,
    scheme?_network _ sound.scheme]
  simp only [if_neg notFile, isSpecial, if_true, dropWhile_afterSlashes soundA soundH]
  exact ofAuthority_text sound authority host

end AttackMap.Url
