import AttackMap.Proofs.Config.Numbers
import AttackMap.Proofs.Filter.Declaration
import AttackMap.Proofs.Url.Written

/-!
# What a configuration is checked for

Whatever the surroundings, there is a configuration or a refusal, and which
of the two is a matter of eleven checks in a fixed order: the refusal is that
of the first check that fails (`load_error_iff`). The checks know the
settings without the blanks around them only, and do not tell a blank
setting from one that is not there, so neither does the result
(`load_of_alike`).

That the stream's URL can be made from the API's is none of the checks: it
always can (`streamUrlFor_eq_ok`), and what is made is a URL again, because
a URL that has been read is in the one form in which URLs are written.
-/

namespace AttackMap.Config

open Text

/-! ## Blanks around a setting -/

/-- Two texts of a setting that differ in blanks only: there is nothing but
blanks in either, or both are one text with blanks around it. -/
inductive AlikeButBlanks : Option String → Option String → Prop where
  | nothing (a b : Option String) (blankA : ∀ s ∈ a, AllBlank s.toList)
    (blankB : ∀ s ∈ b, AllBlank s.toList) : AlikeButBlanks a b
  | padded (core : List Char) (s t : String) (around : Pads core s.toList)
    (around' : Pads core t.toList) : AlikeButBlanks (some s) (some t)

/-- Two surroundings with the same files, whose settings differ in blanks
only. -/
structure Alike (s t : Surroundings) : Prop where
  file : s.file = t.file
  settings : ∀ name ∈ settings, AlikeButBlanks (s.setting name) (t.setting name)

theorem bind_unlessBlank_of_blank {a : Option String} (blank : ∀ s ∈ a, AllBlank s.toList) :
    a.bind Filter.unlessBlank = none := by
  cases a with
  | none => rfl
  | some s =>
    rw [Option.bind_some]
    exact Filter.unlessBlank_eq_none_iff.mpr (blank s rfl)

theorem trim_of_pads {core : List Char} {s t : String} (around : Pads core s.toList)
    (around' : Pads core t.toList) : trim s = trim t := by
  rw [← String.toList_inj, toList_trim, toList_trim, trimmed_pads around, trimmed_pads around']

theorem bind_unlessBlank_of_alike {a b : Option String} (alike : AlikeButBlanks a b) :
    a.bind Filter.unlessBlank = b.bind Filter.unlessBlank := by
  cases alike with
  | nothing _ _ blankA blankB =>
    rw [bind_unlessBlank_of_blank blankA, bind_unlessBlank_of_blank blankB]
  | padded core s t around around' =>
    simp only [Option.bind_some, Filter.unlessBlank, trim_of_pads around around']

theorem setting_of_alike {s t : Surroundings} (alike : Alike s t) :
    ∀ name ∈ settings, setting s name = setting t name := fun name mem =>
  bind_unlessBlank_of_alike (alike.settings name mem)

/-- Blanks make no difference, neither to a configuration nor to a
refusal. -/
theorem load_of_alike {s t : Surroundings} (alike : Alike s t) : load s = load t := by
  have same := setting_of_alike alike
  simp only [settings, List.forall_mem_cons] at same
  obtain ⟨api, stream, stale, connect, frame, resync, preset, -⟩ := same
  simp only [load, time, api, stream, stale, connect, frame, resync, preset, Config.preset,
    alike.file]

/-! ## The checks -/

/-- What is checked. -/
inductive Check where
  | apiParses
  | apiScheme
  | streamParses
  | streamScheme
  /-- A setting is a number. -/
  | number (setting : String)
  | frameNotZero
  | filterReads
  | filterDeserializes
  deriving DecidableEq, Repr

/-- The checks in their order. -/
def checks : List Check :=
  [.apiParses, .apiScheme, .streamParses, .streamScheme, .number "THREATMAP_STALE_MS",
    .number "THREATMAP_CONNECT_TIMEOUT_MS", .number "THREATMAP_FRAME_INTERVAL_MS",
    .number "THREATMAP_RESYNC_MS", .frameNotZero, .filterReads, .filterDeserializes]

/-- The text of the API's URL. -/
def apiText (s : Surroundings) : String := (setting s "THREATMAP_API_URL").getD usualApiUrl

/-- What is wrong with a text that is to be a URL. -/
def parseFault (text : String) : Option Refusal :=
  match Url.read text with
  | .ok _ => none
  | .error fault => some (.url text fault)

/-- What is wrong with the scheme of a text that is a URL. -/
def schemeFault (text : String) (schemes : List String) (expected : String) : Option Refusal :=
  match Url.read text with
  | .ok u => if u.scheme ∈ schemes then none else some (.scheme text expected)
  | .error _ => none

/-- What is wrong with a text that is to be a number. -/
def numberFault (name text : String) : Option Refusal :=
  match millis text with
  | .ok _ => none
  | .error fault => some (.number name text fault)

/-- The text of a file, if it can be read. -/
def fileText (s : Surroundings) (path : String) : Except FileFault String :=
  (s.file path).bind fun bytes => (String.fromUTF8? bytes).elim (.error .notText) .ok

/-- What a check finds wrong. -/
def Check.fault (s : Surroundings) : Check → Option Refusal
  | .apiParses => parseFault (apiText s)
  | .apiScheme => schemeFault (apiText s) ["http", "https"] "an http or https"
  | .streamParses => (setting s "THREATMAP_WS_URL").bind parseFault
  | .streamScheme =>
    (setting s "THREATMAP_WS_URL").bind (schemeFault · ["ws", "wss"] "a ws or wss")
  | .number name => (setting s name).bind (numberFault name)
  | .frameNotZero =>
    (setting s "THREATMAP_FRAME_INTERVAL_MS").bind fun text =>
      if millis text = .ok 0 then some (.zero "THREATMAP_FRAME_INTERVAL_MS") else none
  | .filterReads =>
    (setting s "THREATMAP_FILTERS_FILE").bind fun path =>
      match fileText s path with
      | .ok _ => none
      | .error fault => some (.presetFile path fault)
  | .filterDeserializes =>
    (setting s "THREATMAP_FILTERS_FILE").bind fun path =>
      match fileText s path with
      | .ok text => if Filter.Preset.ofText? text = none then some .preset else none
      | .error _ => none

/-! ## Loading step by step -/

/-- The text of the stream's URL: the one given, or the one made from the
API's. -/
def stream (s : Surroundings) (api : Url) : Except Refusal String :=
  match setting s "THREATMAP_WS_URL" with
  | some url => (urlWith url ["ws", "wss"] "a ws or wss").map fun _ => url
  | none => streamUrlFor api

/-- The frame period, which is not zero. -/
def notZero (frameEvery : UInt64) : Except Refusal Unit :=
  if frameEvery = 0 then .error (.zero "THREATMAP_FRAME_INTERVAL_MS") else .ok ()

/-- The filter to start with. -/
def startFilter (s : Surroundings) : Except Refusal Filter :=
  match setting s "THREATMAP_FILTERS_FILE" with
  | some path => preset s path
  | none => .ok .initial

theorem load_eq (s : Surroundings) : load s = (do
    let api ← urlWith (apiText s) ["http", "https"] "an http or https"
    let streamUrl ← stream s api
    let staleAfter ← time s "THREATMAP_STALE_MS" Liveness.usualStaleAfter
    let connectWithin ← time s "THREATMAP_CONNECT_TIMEOUT_MS" 5000
    let frameEvery ← time s "THREATMAP_FRAME_INTERVAL_MS" 16
    let resync ← time s "THREATMAP_RESYNC_MS" 15000
    let _ ← notZero frameEvery
    let filter ← startFilter s
    return {
      streamUrl
      apiUrl := dropTrailingSlashes (apiText s)
      staleAfter
      connectWithin
      frameEvery
      resyncEvery := if resync = 0 then none else some resync
      filter }) := by
  unfold load stream
  refine bind_congr fun api => ?_
  -- the frame period and the filter, whatever the times
  have rest (streamUrl : String) (staleAfter connectWithin frameEvery resync : UInt64) :
      (do
        if frameEvery = 0 then .error (.zero "THREATMAP_FRAME_INTERVAL_MS")
        let filter ← match setting s "THREATMAP_FILTERS_FILE" with
          | some path => preset s path
          | none => pure .initial
        return Config.mk streamUrl (dropTrailingSlashes (apiText s)) staleAfter connectWithin
          frameEvery (if resync = 0 then none else some resync) filter) = (do
        let _ ← notZero frameEvery
        let filter ← startFilter s
        return Config.mk streamUrl (dropTrailingSlashes (apiText s)) staleAfter connectWithin
          frameEvery (if resync = 0 then none else some resync) filter) := by
    unfold notZero startFilter
    by_cases zero : frameEvery = 0
    · simp only [if_pos zero]
      rfl
    · simp only [if_neg zero]
      cases setting s "THREATMAP_FILTERS_FILE" <;> rfl
  cases setting s "THREATMAP_WS_URL" with
  | none =>
    exact bind_congr fun streamUrl => bind_congr fun _ => bind_congr fun _ => bind_congr fun _ =>
      bind_congr fun _ => rest ..
  | some url =>
    dsimp only
    cases urlWith url ["ws", "wss"] "a ws or wss" with
    | error r => rfl
    | ok u =>
      exact bind_congr fun _ => bind_congr fun _ => bind_congr fun _ => bind_congr fun _ => rest ..

/-! ## The refusal of each step -/

section Steps

variable {α β : Type}

/-- Why there is no result. -/
def refusal? : Except Refusal α → Option Refusal
  | .error r => some r
  | .ok _ => none

theorem refusal?_eq_some_iff {x : Except Refusal α} {r : Refusal} :
    refusal? x = some r ↔ x = .error r := by
  cases x <;> simp [refusal?]

/-- Of two steps the first that fails is the one that is heard of. -/
theorem refusal?_bind {x : Except Refusal α} {f : α → Except Refusal β} {p q : Option Refusal}
    (first : refusal? x = p) (rest : ∀ a, x = .ok a → refusal? (f a) = q) :
    refusal? (x >>= f) = p.or q := by
  subst first
  cases x with
  | error r => rfl
  | ok a => exact (rest a rfl).trans (Option.none_or ..).symm

theorem findSome?_cons_or (f : α → Option β) (a : α) (as : List α) :
    (a :: as).findSome? f = (f a).or (as.findSome? f) := by
  rw [List.findSome?_cons]
  cases f a <;> rfl

end Steps

variable {s : Surroundings}

theorem refusal?_urlWith (text : String) (schemes : List String) (expected : String) :
    refusal? (urlWith text schemes expected) =
      (parseFault text).or (schemeFault text schemes expected) := by
  unfold urlWith parseFault schemeFault
  cases Url.read text with
  | error fault => rfl
  | ok u =>
    by_cases among : u.scheme ∈ schemes
    · have is : schemes.contains u.scheme = true := List.contains_iff_mem.mpr among
      simp [among, bind, Except.bind, Except.mapError, refusal?]
    · simp [among, bind, Except.bind, Except.mapError, refusal?]

theorem refusal?_time (name : String) (usual : UInt64) :
    refusal? (time s name usual) = Check.fault s (.number name) := by
  simp only [time, Check.fault]
  cases setting s name with
  | none => rfl
  | some text =>
    simp only [Option.bind_some, numberFault]
    cases millis text <;> rfl

/-- The usual frame period is not zero, so it is a zero that was set. -/
theorem refusal?_notZero {frameEvery : UInt64}
    (is : time s "THREATMAP_FRAME_INTERVAL_MS" 16 = .ok frameEvery) :
    refusal? (notZero frameEvery) = Check.fault s .frameNotZero := by
  simp only [time] at is
  simp only [Check.fault, notZero]
  cases given : setting s "THREATMAP_FRAME_INTERVAL_MS" with
  | none =>
    rw [given] at is
    cases is
    rfl
  | some text =>
    rw [given] at is
    dsimp only at is
    cases read : millis text with
    | error fault =>
      rw [read] at is
      cases is
    | ok n =>
      rw [read] at is
      cases is
      simp only [Option.bind_some, read, Except.ok.injEq]
      split <;> rfl

theorem refusal?_startFilter : refusal? (startFilter s) =
    (Check.fault s .filterReads).or (Check.fault s .filterDeserializes) := by
  simp only [startFilter, Check.fault]
  cases setting s "THREATMAP_FILTERS_FILE" with
  | none => rfl
  | some path =>
    simp only [Option.bind_some, preset, fileText]
    cases s.file path with
    | error fault => rfl
    | ok bytes =>
      simp only [Except.mapError, bind, Except.bind]
      cases String.fromUTF8? bytes with
      | none => rfl
      | some text =>
        simp only [Option.elim_some]
        cases Filter.Preset.ofText? text <;> rfl

/-! ## The stream's URL -/

theorem normalPath_streamPath : Url.NormalPath streamPath.toList := by
  have normal : ∀ t ∈ ["ws".toList, "threatmap".toList], Url.NormalSegment t := by decide
  exact ⟨_, _, rfl, normal⟩

/-- From a URL of the web the stream's URL can be made, and what is made is
the text of a URL. -/
theorem streamUrlFor_eq_ok {text : String} {api : Url} (read : Url.read text = .ok api)
    (web : api.scheme ∈ ["http", "https"]) :
    ∃ u : Url, streamUrlFor api = .ok u.text ∧ u.Sound ∧ u.scheme ∈ ["ws", "wss"] := by
  have network : ∀ scheme ∈ ["http", "https"], scheme ∈ Url.network := by decide
  have sound := Url.sound_of_read read (network _ web)
  have target : (if api.scheme = "https" then "wss" else "ws") ∈ ["ws", "wss"] := by
    split <;> decide
  have among : ∀ scheme ∈ ["ws", "wss"], scheme ∈ Url.network := by decide
  obtain ⟨v, made, scheme, soundV⟩ := sound.withScheme? (among _ target)
  refine ⟨(v.withPath streamPath).withoutQuery, ?_, ?_, ?_⟩
  · rw [streamUrlFor]
    simp only [made]
  · exact (soundV.withPath normalPath_streamPath).withoutQuery
  · exact scheme ▸ target

theorem refusal?_stream {api : Url} (made : ∃ url, streamUrlFor api = .ok url) :
    refusal? (stream s api) =
      (Check.fault s .streamParses).or (Check.fault s .streamScheme) := by
  obtain ⟨url, made⟩ := made
  simp only [stream, Check.fault]
  cases setting s "THREATMAP_WS_URL" with
  | none =>
    simp only [made]
    rfl
  | some text =>
    have checked := refusal?_urlWith text ["ws", "wss"] "a ws or wss"
    simp only [Option.bind_some, ← checked]
    cases urlWith text ["ws", "wss"] "a ws or wss" <;> rfl

/-! ## All steps -/

theorem read_of_urlWith {text expected : String} {schemes : List String} {u : Url}
    (is : urlWith text schemes expected = .ok u) : Url.read text = .ok u ∧ u.scheme ∈ schemes := by
  unfold urlWith at is
  cases read : Url.read text with
  | error fault =>
    rw [read] at is
    cases is
  | ok v =>
    simp only [read, Except.mapError, bind, Except.bind] at is
    split at is
    · next among =>
      cases is
      exact ⟨rfl, List.contains_iff_mem.mp among⟩
    · cases is

/-- The refusal is that of the first check that fails. -/
theorem refusal?_load (s : Surroundings) :
    refusal? (load s) = checks.findSome? (Check.fault s) := by
  have made (api : Url) (is : urlWith (apiText s) ["http", "https"] "an http or https" = .ok api) :
      ∃ url, streamUrlFor api = .ok url := by
    obtain ⟨read, web⟩ := read_of_urlWith is
    obtain ⟨u, made, -⟩ := streamUrlFor_eq_ok read web
    exact ⟨_, made⟩
  simp only [checks, findSome?_cons_or, List.findSome?_nil]
  rw [← Option.or_assoc, load_eq]
  refine refusal?_bind (refusal?_urlWith ..) fun api is => ?_
  rw [← Option.or_assoc]
  refine refusal?_bind (refusal?_stream (made api is)) fun _ _ =>
    refusal?_bind (refusal?_time ..) fun _ _ =>
    refusal?_bind (refusal?_time ..) fun _ _ =>
    refusal?_bind (refusal?_time ..) fun _ is =>
    refusal?_bind (refusal?_time ..) fun _ _ =>
    refusal?_bind (refusal?_notZero is) fun _ _ => ?_
  rw [← Option.or_assoc]
  exact refusal?_bind refusal?_startFilter fun _ _ => rfl

theorem load_error_iff {r : Refusal} :
    load s = .error r ↔ checks.findSome? (Check.fault s) = some r := by
  rw [← refusal?_load, refusal?_eq_some_iff]

/-! ## What has been loaded -/

/-- What a setting counts as: the text without the blanks around it, if there
is anything but blanks. -/
theorem setting_eq_some_iff {name value : String} : setting s name = some value ↔
    ∃ given ∈ s.setting name, Pads value.toList given.toList ∧ Bare value.toList := by
  rw [setting, Option.bind_eq_some_iff]
  refine exists_congr fun given => and_congr_right fun _ => ?_
  rw [Filter.unlessBlank_eq_some_iff]
  refine and_congr_left fun bare => ?_
  constructor
  · rintro rfl
    rw [toList_trim]
    exact pads_trimmed _
  · intro around
    rw [← String.toList_inj, toList_trim, trimmed_pads around, bare.trimmed_eq]

theorem numberFault_eq_none_iff {name text : String} :
    numberFault name text = none ↔ ∃ n, SpellsWord text n := by
  unfold numberFault
  cases read : millis text with
  | error fault =>
    refine iff_of_false nofun ?_
    rintro ⟨n, spells⟩
    obtain ⟨-, -, -, -, -, small⟩ := id spells
    have fits : (UInt64.ofNat n).toNat = n := UInt64.toNat_ofNat_of_lt' small
    rw [← fits, ← millis_eq_ok_iff, read] at spells
    cases spells
  | ok w => exact iff_of_true rfl ⟨_, millis_eq_ok_iff.mp read⟩

theorem fault_number_eq_none_iff {name : String} : Check.fault s (.number name) = none ↔
    ∀ text ∈ setting s name, ∃ n, SpellsWord text n := by
  simp only [Check.fault, Option.bind_eq_none_iff, numberFault_eq_none_iff, Option.mem_def]

/-- A time is zero if it was set to zero. -/
theorem time_eq_zero_iff {name : String} {usual n : UInt64} (is : time s name usual = .ok n)
    (usually : usual ≠ 0) : n = 0 ↔ ∃ text ∈ setting s name, SpellsWord text 0 := by
  unfold time at is
  cases given : setting s name with
  | none =>
    rw [given] at is
    cases is
    exact iff_of_false usually (by simp)
  | some text =>
    rw [given] at is
    dsimp only at is
    cases read : millis text with
    | error fault =>
      rw [read] at is
      cases is
    | ok w =>
      rw [read] at is
      cases is
      have zero : millis text = .ok 0 ↔ SpellsWord text 0 := millis_eq_ok_iff
      simp [← zero, read]

theorem getLast?_dropTrailingSlashes (text : String) :
    (dropTrailingSlashes text).toList.getLast? ≠ some '/' := by
  rw [dropTrailingSlashes, String.toList_ofList, List.getLast?_reverse]
  intro last
  have head := List.head?_dropWhile_not (· == '/') text.toList.reverse
  rw [last] at head
  cases head

/-- What is promised of a configuration. -/
structure Usable (s : Surroundings) (c : Config) : Prop where
  /-- A frame lasts for a millisecond at least. -/
  frameEvery : 1 ≤ c.frameEvery.toNat
  /-- There is no resync just if its period was set to zero. -/
  resyncEvery : c.resyncEvery = none ↔ ∃ text ∈ setting s "THREATMAP_RESYNC_MS", SpellsWord text 0
  streamUrl : ∃ u, Url.read c.streamUrl = .ok u ∧ u.scheme ∈ ["ws", "wss"]
  /-- No slash stands at the end of the API's URL. -/
  apiUrl : c.apiUrl.toList.getLast? ≠ some '/'

open Url (exists_of_bind_eq_ok) in
theorem usable_of_load {c : Config} (h : load s = .ok c) : c.Usable s := by
  rw [load_eq] at h
  obtain ⟨api, isApi, h⟩ := exists_of_bind_eq_ok h
  obtain ⟨streamUrl, isStream, h⟩ := exists_of_bind_eq_ok h
  obtain ⟨staleAfter, -, h⟩ := exists_of_bind_eq_ok h
  obtain ⟨connectWithin, -, h⟩ := exists_of_bind_eq_ok h
  obtain ⟨frameEvery, -, h⟩ := exists_of_bind_eq_ok h
  obtain ⟨resync, isResync, h⟩ := exists_of_bind_eq_ok h
  obtain ⟨_, notZero, h⟩ := exists_of_bind_eq_ok h
  obtain ⟨filter, -, h⟩ := exists_of_bind_eq_ok h
  cases h
  constructor
  case frameEvery =>
    unfold Config.notZero at notZero
    split at notZero
    · cases notZero
    · next some =>
      exact Nat.one_le_iff_ne_zero.mpr fun zero => some (UInt64.toNat_inj.mp zero)
  case resyncEvery =>
    rw [← time_eq_zero_iff isResync (by decide)]
    simp
  case streamUrl =>
    unfold stream at isStream
    split at isStream
    · next url given =>
      cases checked : urlWith url ["ws", "wss"] "a ws or wss" with
      | error r =>
        rw [checked] at isStream
        cases isStream
      | ok u =>
        rw [checked] at isStream
        cases isStream
        exact ⟨u, read_of_urlWith checked⟩
    · obtain ⟨read, web⟩ := read_of_urlWith isApi
      obtain ⟨u, made, sound, scheme⟩ := streamUrlFor_eq_ok read web
      cases made.symm.trans isStream
      exact ⟨u, Url.read_text sound, scheme⟩
  case apiUrl => exact getLast?_dropTrailingSlashes _

open Url (exists_of_bind_eq_ok) in
/-- Where the two URLs of a configuration come from. -/
theorem exists_api_of_load {c : Config} (is : load s = .ok c) :
    ∃ api, Url.read (apiText s) = .ok api ∧ api.scheme ∈ ["http", "https"] ∧
      stream s api = .ok c.streamUrl ∧ c.apiUrl = dropTrailingSlashes (apiText s) := by
  rw [load_eq] at is
  obtain ⟨api, isApi, is⟩ := exists_of_bind_eq_ok is
  obtain ⟨streamUrl, isStream, is⟩ := exists_of_bind_eq_ok is
  obtain ⟨staleAfter, -, is⟩ := exists_of_bind_eq_ok is
  obtain ⟨connectWithin, -, is⟩ := exists_of_bind_eq_ok is
  obtain ⟨frameEvery, -, is⟩ := exists_of_bind_eq_ok is
  obtain ⟨resync, -, is⟩ := exists_of_bind_eq_ok is
  obtain ⟨_, -, is⟩ := exists_of_bind_eq_ok is
  obtain ⟨filter, -, is⟩ := exists_of_bind_eq_ok is
  cases is
  obtain ⟨read, web⟩ := read_of_urlWith isApi
  exact ⟨api, read, web, isStream, rfl⟩

/-! ## Loading -/

/-- What loading a configuration comes to in some surroundings. -/
structure Checked (s : Surroundings) : Prop where
  /-- A setting counts as its text without the blanks around it, and not at
  all if there is nothing but blanks. -/
  counts : ∀ name value, setting s name = some value ↔
    ∃ given ∈ s.setting name, Pads value.toList given.toList ∧ Bare value.toList
  /-- Blanks make no difference. -/
  blanks : ∀ t, Alike s t → load s = load t
  /-- There is no configuration just if a check fails, and the refusal is that
  of the first that does. -/
  refusal : ∀ r, load s = .error r ↔ checks.findSome? (Check.fault s) = some r
  /-- A number passes if it is digits, perhaps after a plus sign, and fits in
  a word. -/
  numbers : ∀ name, Check.fault s (.number name) = none ↔
    ∀ text ∈ setting s name, ∃ n, SpellsWord text n
  usable : ∀ c, load s = .ok c → c.Usable s
  /-- The stream's URL can be made from every URL of the API. -/
  stream : ∀ text api, Url.read text = .ok api → api.scheme ∈ ["http", "https"] →
    ∃ url, streamUrlFor api = .ok url

/-- **Whatever the surroundings, a configuration is loaded if eleven checks
pass, and refused for the first that fails.** Blanks around a setting, and
settings of nothing but blanks, make no difference. A configuration that has
been loaded has a frame period, resyncs unless it was told not to, and knows
the stream by a URL of the right scheme. -/
theorem load_checked (s : Surroundings) : Checked s := by
  constructor
  case counts => exact fun name value => setting_eq_some_iff
  case blanks => exact fun t => load_of_alike
  case refusal => exact fun r => load_error_iff
  case numbers => exact fun name => fault_number_eq_none_iff
  case usable => exact fun c => usable_of_load
  case stream =>
    intro text api read web
    obtain ⟨u, made, -⟩ := streamUrlFor_eq_ok read web
    exact ⟨_, made⟩

/-- Surroundings with a URL of the API, perhaps one of the stream, and nothing
else. -/
def webSurroundings (api : String) (stream : Option String) : Surroundings where
  setting name :=
    if name = "THREATMAP_API_URL" then some api
    else if name = "THREATMAP_WS_URL" then stream
    else none
  file _ := .error .notFound

/-- Blanks around the API's URL, and a stream's URL of nothing but blanks:
the stream's URL is made from the API's, and can be read. -/
theorem load_checked_padded :
    load (webSurroundings "\tHTTPS://Map.example//\u3000" (some " ")) =
        load (webSurroundings "HTTPS://Map.example//" none) ∧
      ∃ c, load (webSurroundings "HTTPS://Map.example//" none) = .ok c ∧
        c.streamUrl = "wss://map.example/ws/threatmap" ∧ c.apiUrl = "HTTPS://Map.example" ∧
        ∃ u, Url.read c.streamUrl = .ok u ∧ u.scheme ∈ ["ws", "wss"] := by
  constructor
  · have padded : AlikeButBlanks (some "\tHTTPS://Map.example//\u3000")
        (some "HTTPS://Map.example//") :=
      .padded "HTTPS://Map.example//".toList _ _ ⟨['\t'], ['\u3000'], rfl, by decide, by decide⟩
        ⟨[], [], rfl, by decide, by decide⟩
    have blank : AlikeButBlanks (some " ") none :=
      .nothing _ _ (fun _ is => by cases is; decide) nofun
    have unset : AlikeButBlanks none none := .nothing _ _ nofun nofun
    refine (load_checked _).blanks _ ⟨rfl, ?_⟩
    simp only [settings, List.forall_mem_cons]
    exact ⟨padded, blank, unset, unset, unset, unset, unset, nofun⟩
  · obtain ⟨c, is, stream, api⟩ : ∃ c, load (webSurroundings "HTTPS://Map.example//" none) = .ok c ∧
        c.streamUrl = "wss://map.example/ws/threatmap" ∧ c.apiUrl = "HTTPS://Map.example" :=
      ⟨_, rfl, rfl, rfl⟩
    exact ⟨c, is, stream, api, ((load_checked _).usable c is).streamUrl⟩

end AttackMap.Config
