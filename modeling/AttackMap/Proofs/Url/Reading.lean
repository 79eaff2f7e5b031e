import AttackMap.Proofs.Url.Host
import AttackMap.Proofs.Url.Path
import Mathlib.Tactic.SplitIfs

/-!
# The one form of a URL

The URLs with a host in one of the special schemes are read in one form
(`sound_of_read`): the host is sound, the path normal, a port is one that the
scheme does not imply, and what stands elsewhere has been encoded.
-/

namespace AttackMap.Url

/-- The schemes with a host. -/
def network : List String := ["http", "https", "ws", "wss", "ftp"]

/-! ## What is read -/

/-- The port after a host, and what follows it. -/
def portAfterHost (scheme : String) (cs : List Char) : Except Refusal (Option Nat × List Char) :=
  match cs with
  | ':' :: r => port scheme r
  | _ => .ok (none, cs)

theorem portAfterHost_of_ne {scheme : String} {cs : List Char} (other : ∀ r, cs ≠ ':' :: r) :
    portAfterHost scheme cs = .ok (none, cs) := by
  unfold portAfterHost
  split
  · exact absurd rfl (other _)
  · rfl

/-- The URL of parts that have been read; `rest` are path, query and
fragment. -/
def assembled (scheme : String) (user : Option (List Char)) (host : Host) (port : Option Nat)
    (rest : List Char) : Url :=
  let named := (user.map userInfo).getD ("", "")
  let parts := splitPath rest
  let ends := tail true parts.2
  { scheme
    authority := some ⟨named.1, named.2, some host, port⟩
    path := String.ofList (pathAfterHost true parts.1)
    query := ends.1
    fragment := ends.2 }

/-- How a URL with a host is read. -/
theorem ofAuthority_eq {scheme : String} (isSpecial : special.contains scheme = true)
    (cs : List Char) : ofAuthority scheme cs =
      let (user, rest) := splitUser true cs
      let (hostText, rest) := splitHost true false rest
      if hostText.isEmpty then .error .emptyHost
      else (do
        let host ← Host.ofSpecial hostText
        let (port, rest) ← portAfterHost scheme rest
        return assembled scheme user host port rest) := by
  unfold ofAuthority
  simp only [isSpecial, Bool.true_or, Bool.and_true]
  split
  · rfl
  · simp only [if_true]
    cases Host.ofSpecial (splitHost true false (splitUser true cs).2).1 with
    | error r => rfl
    | ok host =>
      generalize (splitHost true false (splitUser true cs).2).2 = after
      split
      · rfl
      · next other =>
        rw [portAfterHost_of_ne other]
        rfl

/-! ## The form of what is read -/

/-- A user, a host and a port as reading gives them. -/
structure Authority.Sound (scheme : String) (a : Authority) : Prop where
  host : ∃ h, a.host = some h ∧ h.Sound
  username : ∀ c ∈ a.username.toList, Stays inUserInfo c
  password : ∀ c ∈ a.password.toList, Stays inUserInfo c
  port : ∀ n ∈ a.port, n ≤ 65535 ∧ some n ≠ defaultPort scheme

/-- A URL as reading gives it. -/
structure Sound (u : Url) : Prop where
  scheme : u.scheme ∈ network
  authority : ∃ a, u.authority = some a ∧ a.Sound u.scheme
  path : NormalPath u.path.toList
  query : ∀ q ∈ u.query, ∀ c ∈ q.toList, Stays inSpecialQuery c
  fragment : ∀ f ∈ u.fragment, ∀ c ∈ f.toList, Stays inFragment c

theorem stays_of_mem_ofList {encoded : Char → Bool} (keeps : KeepsMarks encoded) {cs : List Char} :
    ∀ c ∈ (String.ofList (percentEncode encoded cs)).toList, Stays encoded c := by
  intro c mem
  rw [String.toList_ofList] at mem
  exact stays_of_mem_percentEncode keeps mem

theorem stays_userInfo (user : Option (List Char)) :
    (∀ c ∈ ((user.map userInfo).getD ("", "")).1.toList, Stays inUserInfo c) ∧
      ∀ c ∈ ((user.map userInfo).getD ("", "")).2.toList, Stays inUserInfo c := by
  cases user with
  | none => exact ⟨fun _ => nofun, fun _ => nofun⟩
  | some cs =>
    exact ⟨stays_of_mem_ofList keepsMarks_inUserInfo, stays_of_mem_ofList keepsMarks_inUserInfo⟩

theorem stays_tail (cs : List Char) :
    (∀ q ∈ (tail true cs).1, ∀ c ∈ q.toList, Stays inSpecialQuery c) ∧
      ∀ f ∈ (tail true cs).2, ∀ c ∈ f.toList, Stays inFragment c := by
  unfold tail
  dsimp only
  split
  · refine ⟨fun q mem => ?_, fun f mem => ?_⟩
    · cases mem
      exact stays_of_mem_ofList keepsMarks_inSpecialQuery
    · dsimp only at mem
      split at mem
      · cases mem
        exact stays_of_mem_ofList keepsMarks_inFragment
      · cases mem
  · refine ⟨fun q mem => (by cases mem), fun f mem => ?_⟩
    cases mem
    exact stays_of_mem_ofList keepsMarks_inFragment
  · exact ⟨fun q mem => (by cases mem), fun f mem => (by cases mem)⟩

theorem port_of_explicitPort {scheme : String} {m n : Nat} (small : m ≤ 65535)
    (mem : n ∈ explicitPort scheme (some m)) : n ≤ 65535 ∧ some n ≠ defaultPort scheme := by
  unfold explicitPort at mem
  split at mem
  · cases mem
  · next other =>
    cases mem
    exact ⟨small, other⟩

theorem sound_portAfterHost {scheme : String} {cs rest : List Char} {p : Option Nat}
    (h : portAfterHost scheme cs = .ok (p, rest)) :
    ∀ n ∈ p, n ≤ 65535 ∧ some n ≠ defaultPort scheme := by
  unfold portAfterHost at h
  split at h
  · simp only [port] at h
    split_ifs at h with bad none
    · cases h
      exact fun n mem => nomatch mem
    · cases h
      exact fun n mem => port_of_explicitPort (Nat.not_lt.mp (not_or.mp bad).1) mem
  · cases h
    exact fun n mem => nomatch mem

theorem sound_assembled {scheme : String} (among : scheme ∈ network) (user : Option (List Char))
    {host : Host} (sound : host.Sound) {port : Option Nat}
    (fits : ∀ n ∈ port, n ≤ 65535 ∧ some n ≠ defaultPort scheme) (rest : List Char) :
    (assembled scheme user host port rest).Sound := by
  obtain ⟨username, password⟩ := stays_userInfo user
  obtain ⟨query, fragment⟩ := stays_tail (splitPath rest).2
  refine ⟨among, ⟨_, rfl, ⟨host, rfl, sound⟩, username, password, fits⟩, ?_, query, fragment⟩
  rw [assembled, String.toList_ofList]
  exact normalPath_pathAfterHost _

theorem isSpecial_of_network : ∀ scheme ∈ network,
    special.contains scheme = true ∧ scheme ≠ "file" := by decide

/-- A URL with a host is read in its one form. -/
theorem sound_of_ofAuthority {scheme : String} (among : scheme ∈ network) {cs : List Char}
    {u : Url} (h : ofAuthority scheme cs = .ok u) : u.scheme = scheme ∧ u.Sound := by
  rw [ofAuthority_eq (isSpecial_of_network scheme among).1] at h
  dsimp only at h
  split at h
  · cases h
  · cases host : Host.ofSpecial (splitHost true false (splitUser true cs).2).1 with
    | error r =>
      rw [host] at h
      cases h
    | ok host' =>
      rw [host] at h
      cases port : portAfterHost scheme (splitHost true false (splitUser true cs).2).2 with
      | error r =>
        simp only [port] at h
        cases h
      | ok p =>
        simp only [port] at h
        cases h
        exact ⟨rfl, sound_assembled among _ (Host.sound_of_ofSpecial host)
          (sound_portAfterHost port) _⟩

/-! ## The scheme of what is read -/

theorem exists_of_bind_eq_ok {ε α β : Type} {x : Except ε α} {f : α → Except ε β} {b : β}
    (h : x >>= f = .ok b) : ∃ a, x = .ok a ∧ f a = .ok b := by
  cases x with
  | error e => cases h
  | ok a => exact ⟨a, rfl, h⟩

theorem scheme_of_ofAuthority {scheme : String} {cs : List Char} {u : Url}
    (h : ofAuthority scheme cs = .ok u) : u.scheme = scheme := by
  unfold ofAuthority at h
  dsimp only at h
  split_ifs at h
  all_goals
    obtain ⟨host, -, h⟩ := exists_of_bind_eq_ok h
    split at h
    all_goals
      obtain ⟨port, -, h⟩ := exists_of_bind_eq_ok h
      cases h
      rfl

theorem scheme_of_ofFile {cs : List Char} {u : Url} (h : ofFile cs = .ok u) :
    u.scheme = "file" := by
  unfold ofFile at h
  dsimp only at h
  split_ifs at h
  all_goals
    obtain ⟨host, -, h⟩ := exists_of_bind_eq_ok h
    cases h
    rfl

theorem scheme_of_ofOther {scheme : String} {cs : List Char} {u : Url}
    (h : ofOther scheme cs = .ok u) : u.scheme = scheme := by
  unfold ofOther at h
  split at h
  · exact scheme_of_ofAuthority h
  · cases h
    rfl

theorem network_of_special : ∀ scheme ∈ special, scheme ≠ "file" → scheme ∈ network := by decide

/-- A URL that is read, in a scheme with a host, is in its one form. -/
theorem sound_of_read {s : String} {u : Url} (h : read s = .ok u) (among : u.scheme ∈ network) :
    u.Sound := by
  unfold read at h
  split at h
  · cases h
  · next scheme rest _ =>
    split_ifs at h with file some
    · rw [scheme_of_ofFile h] at among
      exact absurd rfl (isSpecial_of_network _ among).2
    · rw [List.contains_iff_mem] at some
      exact (sound_of_ofAuthority (network_of_special _ some file) h).2
    · rw [scheme_of_ofOther h] at among
      exact absurd (isSpecial_of_network _ among).1 some

/-! ## Changes that keep the form -/

theorem mem_of_mem_explicitPort {scheme : String} {p : Option Nat} :
    ∀ n ∈ explicitPort scheme p, n ∈ p ∧ some n ≠ defaultPort scheme := by
  intro n mem
  unfold explicitPort at mem
  split at mem
  · cases mem
  · next other =>
    rw [Option.mem_def] at mem
    exact ⟨mem, mem ▸ other⟩

namespace Sound

variable {u : Url}

/-- A URL in the form has the same URL in any other scheme with a host. -/
theorem withScheme? (sound : u.Sound) {scheme : String} (among : scheme ∈ network) :
    ∃ v, u.withScheme? scheme = some v ∧ v.scheme = scheme ∧ v.Sound := by
  obtain ⟨a, authority, soundA⟩ := sound.authority
  obtain ⟨h, host, soundH⟩ := soundA.host
  have has : (u.isSpecial && u.hasHost) = true := by
    simp only [isSpecial, (isSpecial_of_network _ sound.scheme).1, hasHost, authority,
      Option.bind_some, host]
    rfl
  refine ⟨_, if_pos has, rfl, among, ?_, sound.path, sound.query, sound.fragment⟩
  refine ⟨{ a with port := explicitPort scheme a.port }, by rw [authority]; rfl,
    ⟨h, host, soundH⟩, soundA.username, soundA.password, ?_⟩
  intro n mem
  obtain ⟨given, other⟩ := mem_of_mem_explicitPort n mem
  exact ⟨(soundA.port n given).1, other⟩

theorem withPath (sound : u.Sound) {path : String} (normal : NormalPath path.toList) :
    (u.withPath path).Sound :=
  ⟨sound.scheme, sound.authority, normal, sound.query, sound.fragment⟩

theorem withoutQuery (sound : u.Sound) : u.withoutQuery.Sound :=
  ⟨sound.scheme, sound.authority, sound.path, fun _ mem => (nomatch mem), sound.fragment⟩

end Sound

end AttackMap.Url
