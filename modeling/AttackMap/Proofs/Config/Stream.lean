import AttackMap.Proofs.Config.Checks

/-!
# The stream on the server of the API

Where no URL of the stream is set, it is made from the API's by replacing
one part after the other: the scheme, the path and the query. User, host and
port are kept. The port stays right in the other scheme because that scheme
implies the same port (`withScheme?_eq`).

The fragment is replaced by nothing and dropped by nothing either, so it is
kept too. Two URLs of one server that differ in path and query have one
stream; two that differ in the fragment have two (`text_streamOf_eq_iff`).
-/

namespace AttackMap

/-! ## Servers -/

namespace Url

/-- The port that is asked: the one given, or the one that the scheme
implies. -/
def effectivePort (u : Url) : Option Nat :=
  (u.authority.bind (·.port)).or (defaultPort u.scheme)

/-- One user, one host, one port. -/
structure SameServer (u v : Url) : Prop where
  username : u.authority.map (·.username) = v.authority.map (·.username)
  password : u.authority.map (·.password) = v.authority.map (·.password)
  host : u.authority.map (·.host) = v.authority.map (·.host)
  port : u.effectivePort = v.effectivePort

variable {u v : Url}

/-- No port is written that the scheme implies, so the one that is asked
tells which is written. -/
theorem port_eq_of_effective {p q usual : Option Nat} (written : ∀ n ∈ p, some n ≠ usual)
    (written' : ∀ n ∈ q, some n ≠ usual) (same : p.or usual = q.or usual) : p = q := by
  cases p with
  | none =>
    cases q with
    | none => rfl
    | some n => exact absurd same.symm (written' n rfl)
  | some m =>
    cases q with
    | none => exact absurd same (written m rfl)
    | some n => exact same

/-- In one scheme a server is an authority. -/
theorem Sound.authority_eq (soundU : u.Sound) (soundV : v.Sound) (scheme : u.scheme = v.scheme)
    (same : u.SameServer v) : u.authority = v.authority := by
  obtain ⟨a, authorityU, soundA⟩ := soundU.authority
  obtain ⟨b, authorityV, soundB⟩ := soundV.authority
  obtain ⟨username, password, host, port⟩ := same
  simp only [effectivePort, authorityU, authorityV, scheme, Option.map_some, Option.bind_some,
    Option.some.injEq] at username password host port
  have written : a.port = b.port :=
    port_eq_of_effective (fun n mem => scheme ▸ (soundA.port n mem).2)
      (fun n mem => (soundB.port n mem).2) port
  cases a
  cases b
  cases username
  cases password
  cases host
  cases written
  rw [authorityU, authorityV]

/-- In a scheme that implies the same port nothing else changes. -/
theorem Sound.withScheme?_eq (sound : u.Sound) {scheme : String}
    (among : scheme ∈ network) (implies : defaultPort scheme = defaultPort u.scheme) :
    u.withScheme? scheme = some { u with scheme } := by
  obtain ⟨a, authority, soundA⟩ := sound.authority
  have port : explicitPort scheme a.port = a.port := by
    unfold explicitPort
    split
    · next usual =>
      cases given : a.port with
      | none => rfl
      | some n => exact absurd (given ▸ usual.trans implies) (soundA.port n given).2
    · rfl
  obtain ⟨v, is, -⟩ := sound.withScheme? among
  rw [is]
  unfold Url.withScheme? at is
  split at is
  · rw [← is, authority, Option.map_some, port]
  · cases is

end Url

namespace Config

open Url (SameServer)

/-! ## What is made of the API's URL -/

/-- The scheme of the stream. -/
def streamScheme (api : Url) : String := if api.scheme = "https" then "wss" else "ws"

/-- The API's URL with the scheme, the path and the query of the stream's. -/
def streamOf (api : Url) : Url :=
  { api with scheme := streamScheme api, path := streamPath, query := none }

/-- What a URL of the stream has of the API's URL that it is made from. -/
structure MadeFrom (api u : Url) : Prop where
  scheme : u.scheme = streamScheme api
  server : u.SameServer api
  path : u.path = streamPath
  query : u.query = none
  /-- A fragment is left over. -/
  fragment : u.fragment = api.fragment

section Web

variable {api : Url} (sound : api.Sound) (web : api.scheme ∈ ["http", "https"])

include web in
theorem streamScheme_spec : streamScheme api ∈ ["ws", "wss"] ∧
    Url.defaultPort (streamScheme api) = Url.defaultPort api.scheme := by
  simp only [List.mem_cons, List.not_mem_nil, or_false] at web
  rcases web with http | https
  · rw [streamScheme, http]
    decide
  · rw [streamScheme, https]
    decide

include web in
theorem madeFrom_streamOf : MadeFrom api (streamOf api) := by
  have port : (streamOf api).effectivePort = api.effectivePort := by
    rw [Url.effectivePort, Url.effectivePort, streamOf, (streamScheme_spec web).2]
  exact ⟨rfl, ⟨rfl, rfl, rfl, port⟩, rfl, rfl, rfl⟩

include sound web

theorem streamUrlFor_eq : streamUrlFor api = .ok (streamOf api).text := by
  obtain ⟨among, implies⟩ := streamScheme_spec web
  have network : ∀ scheme ∈ ["ws", "wss"], scheme ∈ Url.network := by decide
  have other := sound.withScheme?_eq (network _ among) implies
  rw [streamScheme] at other
  simp only [streamUrlFor, other]
  rfl

theorem sound_streamOf : (streamOf api).Sound := by
  obtain ⟨among, implies⟩ := streamScheme_spec web
  obtain ⟨a, authority, soundA⟩ := sound.authority
  have network : ∀ scheme ∈ ["ws", "wss"], scheme ∈ Url.network := by decide
  refine ⟨network _ among, ⟨a, authority, soundA.host, soundA.username, soundA.password, ?_⟩,
    normalPath_streamPath, fun _ mem => (nomatch mem), sound.fragment⟩
  intro n mem
  rw [streamOf, implies]
  exact soundA.port n mem

end Web

/-- The text of a stream tells the fragment of the API's URL, and no more of
what stands behind the server. -/
theorem text_streamOf_eq_iff {api api' : Url} (sound : api.Sound) (sound' : api'.Sound)
    (web : api.scheme ∈ ["http", "https"]) (scheme : api.scheme = api'.scheme)
    (server : api.SameServer api') :
    (streamOf api).text = (streamOf api').text ↔ api.fragment = api'.fragment := by
  constructor
  · intro same
    have read := Url.read_text (sound_streamOf sound web)
    rw [same, Url.read_text (sound_streamOf sound' (scheme ▸ web))] at read
    have one : streamOf api' = streamOf api := Except.ok.inj read
    exact congrArg (·.fragment) one.symm
  · intro fragment
    have authority := sound.authority_eq sound' scheme server
    simp only [streamOf, streamScheme, scheme, authority, fragment]

/-! ## Surroundings -/

/-- Surroundings whose stream is made from the URL of the API. -/
structure Derives (s : Surroundings) (api : Url) : Prop where
  unset : setting s "THREATMAP_WS_URL" = none
  read : Url.read (apiText s) = .ok api
  web : api.scheme ∈ ["http", "https"]

namespace Derives

variable {s : Surroundings} {api : Url}

theorem sound (derives : Derives s api) : api.Sound := by
  have network : ∀ scheme ∈ ["http", "https"], scheme ∈ Url.network := by decide
  exact Url.sound_of_read derives.read (network _ derives.web)

theorem streamUrl_eq (derives : Derives s api) {c : Config} (is : load s = .ok c) :
    c.streamUrl = (streamOf api).text := by
  obtain ⟨api', read, -, isStream, -⟩ := exists_api_of_load is
  cases read.symm.trans derives.read
  simp only [stream, derives.unset, streamUrlFor_eq derives.sound derives.web] at isStream
  exact (Except.ok.inj isStream).symm

/-- **The stream is on the server of the API, and of what else the API's URL
has the fragment is all that is left.** The stream's URL is made in every
case and is the one of every configuration loaded. It has the stream's
scheme, path and no query, and other surroundings with an API on the same
server have the same one just if the fragments are the same. -/
theorem streamUrl_eq_iff (derives : Derives s api) :
    ∃ url, streamUrlFor api = .ok url ∧ (∀ c, load s = .ok c → c.streamUrl = url) ∧
      (∃ u, Url.read url = .ok u ∧ MadeFrom api u) ∧
      ∀ t api', Derives t api' → api.scheme = api'.scheme → api.SameServer api' →
        ∀ d, load t = .ok d → (url = d.streamUrl ↔ api.fragment = api'.fragment) := by
  have sound := derives.sound
  refine ⟨(streamOf api).text, streamUrlFor_eq sound derives.web, fun c => derives.streamUrl_eq,
    ⟨_, Url.read_text (sound_streamOf sound derives.web),
      madeFrom_streamOf derives.web⟩, ?_⟩
  intro t api' derives' scheme server d is
  rw [derives'.streamUrl_eq is]
  exact text_streamOf_eq_iff sound derives'.sound derives.web scheme server

end Derives

/-- An API under a path, with a query, and one with neither: one stream. -/
theorem streamUrl_eq_of_path_query :
    ∃ api api' c d, Derives (webSurroundings "https://ada@map.example:443/v1/..//?key=1" none) api ∧
      Derives (webSurroundings "https://ada@map.example" none) api' ∧
      load (webSurroundings "https://ada@map.example:443/v1/..//?key=1" none) = .ok c ∧
      load (webSurroundings "https://ada@map.example" none) = .ok d ∧
      c.streamUrl = "wss://ada@map.example/ws/threatmap" ∧ c.streamUrl = d.streamUrl := by
  have derives : Derives (webSurroundings "https://ada@map.example:443/v1/..//?key=1" none)
      ⟨"https", some ⟨"ada", "", some (.name "map.example"), none⟩, "//", some "key=1", none⟩ :=
    ⟨rfl, rfl, by decide⟩
  have derives' : Derives (webSurroundings "https://ada@map.example" none)
      ⟨"https", some ⟨"ada", "", some (.name "map.example"), none⟩, "/", none, none⟩ :=
    ⟨rfl, rfl, by decide⟩
  obtain ⟨c, isC, text⟩ : ∃ c,
      load (webSurroundings "https://ada@map.example:443/v1/..//?key=1" none) = .ok c ∧
        c.streamUrl = "wss://ada@map.example/ws/threatmap" := ⟨_, rfl, rfl⟩
  obtain ⟨d, isD⟩ : ∃ d, load (webSurroundings "https://ada@map.example" none) = .ok d := ⟨_, rfl⟩
  obtain ⟨url, -, every, -, others⟩ := derives.streamUrl_eq_iff
  have same := (others _ _ derives' rfl ⟨rfl, rfl, rfl, rfl⟩ d isD).mpr rfl
  exact ⟨_, _, c, d, derives, derives', isC, isD, text, (every c isC).trans same⟩

/-- An API's URL with a fragment is on the server of one without, and its
stream has another URL. -/
theorem streamUrl_fragment_left :
    ∃ api api' c d, Derives (webSurroundings "http://map.example/#top" none) api ∧
      Derives (webSurroundings "http://map.example/" none) api' ∧ api.scheme = api'.scheme ∧
      api.SameServer api' ∧ load (webSurroundings "http://map.example/#top" none) = .ok c ∧
      load (webSurroundings "http://map.example/" none) = .ok d ∧
      c.streamUrl = "ws://map.example/ws/threatmap#top" ∧ c.streamUrl ≠ d.streamUrl := by
  have derives : Derives (webSurroundings "http://map.example/#top" none)
      ⟨"http", some ⟨"", "", some (.name "map.example"), none⟩, "/", none, some "top"⟩ :=
    ⟨rfl, rfl, by decide⟩
  have derives' : Derives (webSurroundings "http://map.example/" none)
      ⟨"http", some ⟨"", "", some (.name "map.example"), none⟩, "/", none, none⟩ :=
    ⟨rfl, rfl, by decide⟩
  obtain ⟨c, isC, textC⟩ : ∃ c, load (webSurroundings "http://map.example/#top" none) = .ok c ∧
      c.streamUrl = "ws://map.example/ws/threatmap#top" := ⟨_, rfl, rfl⟩
  obtain ⟨d, isD, textD⟩ : ∃ d, load (webSurroundings "http://map.example/" none) = .ok d ∧
      d.streamUrl = "ws://map.example/ws/threatmap" := ⟨_, rfl, rfl⟩
  refine ⟨_, _, c, d, derives, derives', rfl, ⟨rfl, rfl, rfl, rfl⟩, isC, isD, textC, ?_⟩
  rw [textC, textD]
  decide

end Config

end AttackMap
