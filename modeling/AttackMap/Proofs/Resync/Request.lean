import AttackMap.Proofs.Config.Checks
import AttackMap.Proofs.Url.Plain
import AttackMap.Resync

/-!
# What a resync asks for

The newest events are to be asked for on the server of the API, under its
path. The request is made from text: the API's URL loses the slashes at its
end and gets a path behind it, and what comes out is read as a URL.

That is right where the text ends as the URL's path does. A query or a
fragment takes the new path in (`exists_request_of_mark`). A backslash or a
control at the end, or dots that bring an empty segment to the end, leave the
path of the URL with other slashes than those that were taken from the text.
One slash tells: the request is right just if the text, ended by one slash,
is read as the URL with its path ended by one slash (`asks_iff`), as plain
texts are (`read_slash_of_plain`).
-/

namespace AttackMap.Resync

open Text Url

/-- What is to be asked: on the server of the API, for a page of a window,
behind the API's path. -/
structure Asks (api : Url) (window : Window) (r : Url) : Prop where
  scheme : r.scheme = api.scheme
  authority : r.authority = api.authority
  path : r.path = dropTrailingSlashes api.path ++ "/threatmap/points"
  query : r.query = some ("window=" ++ window.name ++ "&size=200")

/-! ## Slashes at the end -/

theorem exists_slashes (s : String) : ∃ slashes,
    s.toList = (dropTrailingSlashes s).toList ++ slashes ∧ ∀ c ∈ slashes, c = '/' := by
  refine ⟨(s.toList.reverse.takeWhile (· == '/')).reverse, ?_, fun c mem => ?_⟩
  · rw [dropTrailingSlashes, String.toList_ofList, ← List.reverse_append,
      List.takeWhile_append_dropWhile, List.reverse_reverse]
  · have slash := List.mem_takeWhile_imp (List.mem_reverse.mp mem)
    exact beq_iff_eq.mp slash

theorem dropTrailingSlashes_append {cs slashes : List Char} (last : cs.getLast? ≠ some '/')
    (slash : ∀ c ∈ slashes, c = '/') :
    dropTrailingSlashes (String.ofList (cs ++ slashes)) = String.ofList cs := by
  have dropped : (slashes.reverse ++ cs.reverse).dropWhile (· == '/') = cs.reverse := by
    refine dropWhile_append_eq (fun c mem => ?_) fun c mem => ?_
    · rw [slash c (List.mem_reverse.mp mem)]
      rfl
    · rw [List.head?_reverse, Option.mem_def] at mem
      rw [← Bool.not_eq_true, beq_iff_eq]
      rintro rfl
      exact last mem
  rw [dropTrailingSlashes, String.toList_ofList, List.reverse_append, dropped, List.reverse_reverse]

theorem dropTrailingSlashes_dropTrailingSlashes (s : String) :
    dropTrailingSlashes (dropTrailingSlashes s) = dropTrailingSlashes s := by
  have nothing : ∀ c ∈ [], c = '/' := List.forall_mem_nil _
  have once := dropTrailingSlashes_append (Config.getLast?_dropTrailingSlashes s) nothing
  rwa [List.append_nil, String.ofList_toList] at once

/-! ## The pieces of the API's URL -/

/-- How the URL of the API follows from the pieces of its text without the
slashes at the end. -/
inductive Continued (api : Url) (p : Pieces) : Prop where
  /-- The slashes were left out. -/
  | slashes (v : Url) (more : List Char) (server : ofAuthority p.scheme p.server = .ok v)
    (free : NoMark more) (is : api = v.followedBy (p.rest ++ more))
  /-- Controls at the end count now. -/
  | controls (v : Url) (rest more : List Char) (server : ofAuthority p.scheme p.server = .ok v)
    (free : NoMark more) (behind : p.rest = rest ++ more) (is : api = v.followedBy rest)
  /-- Controls behind the server belong to it now. -/
  | bare (nothing : p.rest = []) (query : api.query = none) (fragment : api.fragment = none)

namespace Continued

variable {api : Url} {p : Pieces}

theorem noMark_iff (continued : Continued api p) :
    NoMark p.rest ↔ api.query = none ∧ api.fragment = none := by
  cases continued with
  | slashes v more server free is =>
    rw [is, ← Url.noMark_iff, noMark_append]
    exact ⟨fun marks => ⟨marks, free⟩, And.left⟩
  | controls v rest more server free behind is =>
    rw [is, ← Url.noMark_iff, behind, noMark_append]
    exact ⟨And.left, fun marks => ⟨marks, free⟩⟩
  | bare nothing query fragment =>
    rw [nothing]
    exact iff_of_true (List.forall_mem_nil _) ⟨query, fragment⟩

/-- Behind a query or a fragment more text changes neither server nor
path. -/
theorem exists_of_mark (continued : Continued api p) (marked : ¬ NoMark p.rest) :
    ∃ v, ofAuthority p.scheme p.server = .ok v ∧ v.authority = api.authority ∧
      ∀ more, (v.followedBy (p.rest ++ more)).path = api.path := by
  cases continued with
  | slashes v more server free is =>
    refine ⟨v, server, is ▸ rfl, fun more => ?_⟩
    rw [is, path_followedBy_append marked, path_followedBy_append marked]
  | controls v rest controls server free behind is =>
    have marked' : ¬ NoMark rest := fun marks => marked (behind ▸ noMark_append.mpr ⟨marks, free⟩)
    refine ⟨v, server, is ▸ rfl, fun more => ?_⟩
    rw [is, behind, List.append_assoc, path_followedBy_append marked']
  | bare nothing => exact absurd (nothing ▸ List.forall_mem_nil _) marked

end Continued

/-- The text of the API's URL without the slashes at its end is in pieces. -/
theorem exists_continued {text : String} {api : Url} (read : Url.read text = .ok api)
    (among : api.scheme ∈ network) : ∃ p : Pieces,
      leading (dropTrailingSlashes text).toList = p.text ∧ p.scheme = api.scheme ∧
        Continued api p := by
  obtain ⟨p, v, counts, scheme, server, is⟩ := exists_pieces read among
  obtain ⟨slashes, whole, slash⟩ := exists_slashes text
  by_cases nothing : slashes = []
  -- controls at the end did not count for the URL, but count before a path
  · have same : dropTrailingSlashes text = text := by
      rw [← String.toList_inj, whole, nothing, List.append_nil]
    obtain ⟨controls, counts', low⟩ := exists_controls text
    obtain ⟨q, text', scheme', kept⟩ := p.exists_with_controls low
    refine ⟨q, by rw [same, counts', counts, text'], scheme'.trans scheme, ?_⟩
    rcases kept with ⟨server', rest'⟩ | ⟨rest, rest'⟩
    · have server : ofAuthority q.scheme q.server = .ok v := by rw [scheme', server', server]
      exact .controls v p.rest controls server (noMark_of_low low) rest' is
    · obtain ⟨query, fragment⟩ : api.query = none ∧ api.fragment = none := by
        rw [is, ← Url.noMark_iff, rest]
        exact List.forall_mem_nil _
      exact .bare rest' query fragment
  · have visible : ∀ c ∈ slashes, 0x20 < c.toNat := fun c mem => slash c mem ▸ by decide
    have free : NoMark slashes := fun c mem => slash c mem ▸ by decide
    have text' : dropTrailingSlashes text ++ String.ofList slashes = text := by
      rw [← String.toList_inj, String.toList_append, String.toList_ofList, whole]
    have ended := significant_append (dropTrailingSlashes text) nothing visible
    rw [text', counts] at ended
    obtain ⟨q, front, scheme', server', rest⟩ := p.exists_without ended slash
    have server : ofAuthority q.scheme q.server = .ok v := by rw [scheme', server', server]
    exact ⟨q, front.symm, scheme'.trans scheme, .slashes v slashes server free (rest ▸ is)⟩

/-! ## The request -/

theorem normalPath_points : NormalPath "/threatmap/points".toList := by
  have normal : ∀ t ∈ ["threatmap".toList, "points".toList], NormalSegment t := by decide
  exact ⟨_, _, rfl, normal⟩

theorem query_addPairs {u : Url} (none : u.query = none) (window : Window) :
    (u.addPairs [("window", window.name), ("size", toString pageSize)]).query =
      some ("window=" ++ window.name ++ "&size=200") := by
  unfold addPairs
  rw [none]
  cases window <;> rfl

theorem append_cancel {s t u : String} (same : s ++ u = t ++ u) : s = t := by
  rw [← String.toList_inj, String.toList_append, String.toList_append] at same
  exact String.toList_inj.mp (List.append_cancel_right same)

/-- A path and what is left of it differ in slashes only. -/
theorem points_not_at_end (path : String) :
    path ≠ dropTrailingSlashes path ++ "/threatmap/points" := by
  intro same
  obtain ⟨slashes, whole, slash⟩ := exists_slashes path
  have points : (dropTrailingSlashes path).toList ++ slashes =
      (dropTrailingSlashes path).toList ++ "/threatmap/points".toList := by
    rw [← whole, ← String.toList_append, ← same]
  have t := slash 't' (List.append_cancel_left points ▸ by decide)
  cases t

section Text

variable {text : String} {api : Url} (read : Url.read text = .ok api)
  (among : api.scheme ∈ network)

/-- The slashes are left out twice, which is once. -/
theorem request_dropTrailingSlashes (text : String) (window : Window) :
    request (dropTrailingSlashes text) window =
      (Url.read (dropTrailingSlashes text ++ "/threatmap/points")).map
        (·.addPairs [("window", window.name), ("size", toString pageSize)]) := by
  rw [request, dropTrailingSlashes_dropTrailingSlashes]
  cases Url.read (dropTrailingSlashes text ++ "/threatmap/points") <;> rfl

include read among

/-- Behind a query or a fragment the request is made, and goes to the path
of the API itself. -/
theorem exists_request_of_mark (mark : ¬ (api.query = none ∧ api.fragment = none))
    (window : Window) : ∃ r, request (dropTrailingSlashes text) window = .ok r ∧
      r.scheme = api.scheme ∧ r.authority = api.authority ∧ r.path = api.path := by
  obtain ⟨p, counts, scheme, continued⟩ := exists_continued read among
  rw [← continued.noMark_iff] at mark
  obtain ⟨v, server, authority, path⟩ := continued.exists_of_mark mark
  have whole := read_append counts (scheme ▸ among) normalPath_points
  rw [server] at whole
  have schemeV : v.scheme = api.scheme := (scheme_of_ofAuthority server).trans scheme
  refine ⟨(v.followedBy (p.rest ++ "/threatmap/points".toList)).addPairs
    [("window", window.name), ("size", toString pageSize)], ?_, schemeV, authority, path _⟩
  rw [request_dropTrailingSlashes, whole]
  rfl

/-- With neither a query nor a fragment the request is for the points of the
window, wherever they are. -/
theorem parts_of_request (query : api.query = none) (fragment : api.fragment = none)
    {window : Window} {r : Url} (is : request (dropTrailingSlashes text) window = .ok r) :
    r.scheme = api.scheme ∧ r.query = some ("window=" ++ window.name ++ "&size=200") ∧
      ∃ before, r.path = before ++ "/threatmap/points" := by
  obtain ⟨p, counts, scheme, continued⟩ := exists_continued read among
  obtain ⟨before, all⟩ := exists_read_append counts (scheme ▸ among)
    (continued.noMark_iff.mpr ⟨query, fragment⟩)
  rw [request_dropTrailingSlashes, all "/threatmap/points" normalPath_points] at is
  cases server : ofAuthority p.scheme p.server with
  | error e =>
    rw [server] at is
    cases is
  | ok v =>
    rw [server] at is
    cases is
    exact ⟨(scheme_of_ofAuthority server).trans scheme, query_addPairs rfl window, before, rfl⟩

/-- The request is the right one just if the API's URL has no query and no
fragment, and ends with one slash as its path does. -/
theorem asks_iff (window : Window) :
    (∃ r, request (dropTrailingSlashes text) window = .ok r ∧ Asks api window r) ↔
      api.query = none ∧ api.fragment = none ∧
        Url.read (dropTrailingSlashes text ++ "/") =
          .ok (api.withOnly (dropTrailingSlashes api.path ++ "/")) := by
  obtain ⟨p, counts, scheme, continued⟩ := exists_continued read among
  by_cases free : NoMark p.rest
  · obtain ⟨before, all⟩ := exists_read_append counts (scheme ▸ among) free
    obtain ⟨query, fragment⟩ := continued.noMark_iff.mp free
    rw [request_dropTrailingSlashes, all "/" normalPath_slash,
      all "/threatmap/points" normalPath_points]
    cases server : ofAuthority p.scheme p.server with
    | error e => exact iff_of_false (fun ⟨r, is, _⟩ => nomatch is) fun ⟨_, _, is⟩ => nomatch is
    | ok v =>
      constructor
      · rintro ⟨r, is, asks⟩
        cases is
        have same : before = dropTrailingSlashes api.path := append_cancel asks.path
        exact ⟨query, fragment, congrArg Except.ok
          (withOnly_eq_iff.mpr ⟨asks.scheme, asks.authority, congrArg (· ++ "/") same⟩)⟩
      · rintro ⟨-, -, is⟩
        obtain ⟨schemeV, authority, path⟩ := withOnly_eq_iff.mp (Except.ok.inj is)
        exact ⟨_, rfl, schemeV, authority, congrArg (· ++ "/threatmap/points") (append_cancel path),
          query_addPairs rfl window⟩
  · refine iff_of_false ?_ fun ⟨query, fragment, _⟩ =>
      free (continued.noMark_iff.mpr ⟨query, fragment⟩)
    rintro ⟨r, is, asks⟩
    obtain ⟨r', is', -, -, path⟩ := exists_request_of_mark read among
      (mt continued.noMark_iff.mpr free) window
    cases is.symm.trans is'
    exact points_not_at_end api.path (path ▸ asks.path)

end Text

/-! ## Plain texts -/

section Plain

variable {text : String} {api : Url} (read : Url.read text = .ok api)
  (among : api.scheme ∈ network) (query : api.query = none) (fragment : api.fragment = none)
  (plain : Plain text.toList)

include read among query fragment plain

/-- The path of a plain text is what is left of the text without the slashes
at its end, encoded, and slashes. -/
theorem exists_plain_pieces : ∃ (p : Pieces) (v : Url) (slashes : List Char),
    p.text = (dropTrailingSlashes text).toList ∧ Plain p.text ∧ p.scheme = api.scheme ∧
      ofAuthority p.scheme p.server = .ok v ∧ NoMark p.rest ∧ (∀ c ∈ slashes, c = '/') ∧
      api = v.withOnly (String.ofList (percentEncode inPath p.rest ++ slashes)) := by
  obtain ⟨p, v, counts, scheme, server, is⟩ := exists_pieces read among
  rw [significant_of_visible plain.visible] at counts
  obtain ⟨slashes, whole, slash⟩ := exists_slashes text
  obtain ⟨q, text', scheme', server', rest⟩ := p.exists_without (counts ▸ whole) slash
  have plain' : Plain q.text := by
    rw [text']
    cases slashes with
    | nil => rwa [whole, List.append_nil] at plain
    | cons c r =>
      rw [whole, slash c List.mem_cons_self] at plain
      exact (plain_append_slash.mp plain).1
  have free : NoMark p.rest := by
    rw [Url.noMark_iff (u := v), ← is]
    exact ⟨query, fragment⟩
  rw [followedBy_of_noMark free] at is
  obtain ⟨more, slash', path⟩ : ∃ more, (∀ c ∈ more, c = '/') ∧
      pathAfterHost true p.rest = percentEncode inPath q.rest ++ more := by
    by_cases none : p.rest = []
    -- the slash of an empty path
    · refine ⟨['/'], List.forall_mem_singleton.mpr rfl, ?_⟩
      rw [none] at rest ⊢
      rw [(List.append_eq_nil_iff.mp rest.symm).1]
      rfl
    · have stay : ∀ c ∈ slashes, Stays inPath c := fun c mem => slash c mem ▸ stays_slash
      refine ⟨slashes, slash, ?_⟩
      rw [pathAfterHost_of_plain free (counts ▸ plain) none, rest, percentEncode_append,
        percentEncode_of_stays stay]
  exact ⟨q, v, more, text', plain', scheme'.trans scheme, by rw [scheme', server', server],
    (noMark_append.mp (rest ▸ free)).1, slash', path ▸ is⟩

/-- A plain text without a query and a fragment is read, ended by one slash,
as its URL ended by one slash. -/
theorem read_slash_of_plain : Url.read (dropTrailingSlashes text ++ "/") =
    .ok (api.withOnly (dropTrailingSlashes api.path ++ "/")) := by
  obtain ⟨p, v, slashes, text', plain', scheme, server, free, slash, is⟩ :=
    exists_plain_pieces read among query fragment plain
  have counts : leading (dropTrailingSlashes text).toList = p.text := by
    rw [← text', leading_of_visible plain'.visible]
  have last : p.rest.getLast? ≠ some '/' := by
    intro ends
    obtain ⟨r, form⟩ := List.getLast?_eq_some_iff.mp ends
    apply Config.getLast?_dropTrailingSlashes text
    simp [← text', Pieces.text, form, List.getLast?_cons, List.getLast?_append]
  have path : dropTrailingSlashes api.path = String.ofList (percentEncode inPath p.rest) := by
    rw [is]
    exact dropTrailingSlashes_append (getLast?_percentEncode last) slash
  have ended : String.ofList (pathAfterHost true (p.rest ++ "/".toList)) =
      dropTrailingSlashes api.path ++ "/" := by
    rw [path]
    exact (congrArg String.ofList (pathAfterHost_append_slash free plain')).trans
      String.ofList_append
  have whole : v.followedBy (p.rest ++ "/".toList) =
      api.withOnly (dropTrailingSlashes api.path ++ "/") := by
    rw [followedBy_of_noMark (noMark_append.mpr ⟨free, normalPath_slash.noMark⟩), ended]
    exact withOnly_eq_iff.mpr ⟨is ▸ rfl, is ▸ rfl, rfl⟩
  rw [read_append counts (scheme ▸ among) normalPath_slash, server]
  exact congrArg Except.ok whole

end Plain

/-! ## Configurations -/

/-- The requests of a configuration; `text` is what its API's URL was read
from. -/
structure Requests (text : String) (api : Url) (c : Config) (window : Window) : Prop where
  /-- When the right request is made. -/
  asks : (∃ r, request c.apiUrl window = .ok r ∧ Asks api window r) ↔
    api.query = none ∧ api.fragment = none ∧
      Url.read (dropTrailingSlashes text ++ "/") =
        .ok (api.withOnly (dropTrailingSlashes api.path ++ "/"))
  plain : Plain text.toList → api.query = none → api.fragment = none →
    ∃ r, request c.apiUrl window = .ok r ∧ Asks api window r
  /-- With neither a query nor a fragment only the path may be wrong, and it
  has the right end. -/
  bare : api.query = none → api.fragment = none →
    ∀ r, request c.apiUrl window = .ok r → r.scheme = api.scheme ∧
      r.query = some ("window=" ++ window.name ++ "&size=200") ∧
      ∃ before, r.path = before ++ "/threatmap/points"
  /-- With one of them the points are not asked for. -/
  marked : ¬ (api.query = none ∧ api.fragment = none) →
    ∃ r, request c.apiUrl window = .ok r ∧ r.scheme = api.scheme ∧
      r.authority = api.authority ∧ r.path = api.path

/-- **Resync asks for the points of the window behind the API's path, unless
a query or a fragment stands in the way.** The request of every
configuration is right just if the API's URL has neither and ends with one
slash as its path does, as a plain text does; behind a query or a fragment
it goes to the path of the API itself. -/
theorem requests_of_load {s : Surroundings} {c : Config} (is : Config.load s = .ok c) :
    ∃ api, Url.read (Config.apiText s) = .ok api ∧ api.scheme ∈ ["http", "https"] ∧
      ∀ window, Requests (Config.apiText s) api c window := by
  obtain ⟨api, read, web, -, apiUrl⟩ := Config.exists_api_of_load is
  have network : ∀ scheme ∈ ["http", "https"], scheme ∈ network := by decide
  have among := network _ web
  refine ⟨api, read, web, fun window => ?_⟩
  constructor
  case asks =>
    rw [apiUrl]
    exact asks_iff read among window
  case plain =>
    intro plain query fragment
    rw [apiUrl, asks_iff read among]
    exact ⟨query, fragment, read_slash_of_plain read among query fragment plain⟩
  case bare =>
    intro query fragment r
    rw [apiUrl]
    exact parts_of_request read among query fragment
  case marked =>
    intro mark
    rw [apiUrl]
    exact exists_request_of_mark read among mark window

open Config (load webSurroundings) in
/-- An API under a path, with slashes at its end. -/
theorem requests_of_load_slashes :
    ∃ c api r, load (webSurroundings "https://map.example:8443/a%20b//" none) = .ok c ∧
      Url.read "https://map.example:8443/a%20b//" = .ok api ∧
      request c.apiUrl .oneHour = .ok r ∧ Asks api .oneHour r ∧
      r.target = "/a%20b/threatmap/points?window=1h&size=200" := by
  obtain ⟨c, is, apiUrl⟩ : ∃ c, load (webSurroundings "https://map.example:8443/a%20b//" none) =
      .ok c ∧ c.apiUrl = "https://map.example:8443/a%20b" := ⟨_, rfl, rfl⟩
  obtain ⟨api, read, -, requests⟩ := requests_of_load is
  have plain : Plain "https://map.example:8443/a%20b//".toList := by decide
  obtain ⟨query, fragment⟩ : api.query = none ∧ api.fragment = none := by
    cases read
    exact ⟨rfl, rfl⟩
  obtain ⟨r, made, asks⟩ := (requests .oneHour).plain plain query fragment
  refine ⟨c, api, r, is, read, made, asks, ?_⟩
  rw [apiUrl] at made
  cases made
  rfl

open Config (load webSurroundings) in
/-- An API with a query: the path of the points ends up in it. -/
theorem request_behind_query :
    ∃ c api r, load (webSurroundings "http://map.example/api?key=1" none) = .ok c ∧
      Url.read "http://map.example/api?key=1" = .ok api ∧
      request c.apiUrl .fiveMinutes = .ok r ∧
      r.target = "/api?key=1/threatmap/points&window=5m&size=200" ∧ ¬ Asks api .fiveMinutes r := by
  obtain ⟨c, is, apiUrl⟩ : ∃ c, load (webSurroundings "http://map.example/api?key=1" none) =
      .ok c ∧ c.apiUrl = "http://map.example/api?key=1" := ⟨_, rfl, rfl⟩
  obtain ⟨api, read, path⟩ : ∃ api, Url.read "http://map.example/api?key=1" = .ok api ∧
      api.path = "/api" := ⟨_, rfl, rfl⟩
  obtain ⟨r, made, target, pathR⟩ : ∃ r, request "http://map.example/api?key=1" .fiveMinutes =
      .ok r ∧ r.target = "/api?key=1/threatmap/points&window=5m&size=200" ∧ r.path = "/api" :=
    ⟨_, rfl, rfl, rfl⟩
  refine ⟨c, api, r, is, read, apiUrl ▸ made, target, fun asks => ?_⟩
  have points := asks.path
  rw [path, pathR] at points
  revert points
  decide

end AttackMap.Resync
