import AttackMap.Filter.Preset
import AttackMap.Liveness
import AttackMap.Text.Quoted
import AttackMap.Url.Reader

/-!
# Configuration

Where the server is, how long things take, and which filter to start with.
Every setting has a name under which its text is looked up; blanks around
the text do not count, a blank text counts as none, and a setting without a
text has a default. So an empty surrounding is a configuration.

The checks are made in a fixed order and the first that fails is reported:
the API's URL, the stream's URL, the four times, the zero frame period, the
preset.
-/

namespace AttackMap

/-- Why a file cannot be read. -/
inductive FileFault where
  | notFound
  | notDirectory
  | isDirectory
  | nameTooLong
  | denied
  | zeroInName
  | notText
  deriving DecidableEq, Repr

/-- The text of a reason. -/
def FileFault.message : FileFault → String
  | .notFound => "No such file or directory (os error 2)"
  | .notDirectory => "Not a directory (os error 20)"
  | .isDirectory => "Is a directory (os error 21)"
  | .nameTooLong => "File name too long (os error 36)"
  | .denied => "Permission denied (os error 13)"
  | .zeroInName => "file name contained an unexpected NUL byte"
  | .notText => "stream did not contain valid UTF-8"

/-- What a configuration is taken from. -/
structure Surroundings where
  /-- The text of a setting. -/
  setting : String → Option String
  /-- The bytes of a file. -/
  file : String → Except FileFault ByteArray

/-- A configuration. Times are in milliseconds. -/
structure Config where
  streamUrl : String
  /-- Without slashes at its end. -/
  apiUrl : String
  staleAfter : UInt64
  connectWithin : UInt64
  frameEvery : UInt64
  /-- None if there is no resync. -/
  resyncEvery : Option UInt64
  filter : Filter

namespace Config

/-! ## Refusals -/

/-- Why a text is not a number of milliseconds. -/
inductive NumberFault where
  | notDigit
  | tooLarge
  deriving DecidableEq, Repr

def NumberFault.message : NumberFault → String
  | .notDigit => "invalid digit found in string"
  | .tooLarge => "number too large to fit in target type"

/-- Why there is no configuration. -/
inductive Refusal where
  | number (setting : String) (text : String) (fault : NumberFault)
  | zero (setting : String)
  | url (text : String) (fault : Url.Refusal)
  /-- A URL that is none of the schemes expected. -/
  | scheme (text : String) (expected : String)
  /-- A URL that the stream's URL cannot be made from. -/
  | noStream (text : String) (scheme : String)
  | presetFile (path : String) (fault : FileFault)
  | preset
  deriving DecidableEq, Repr

/-- The text of a refusal. What is wrong with a preset is not said. -/
def Refusal.message : Refusal → String
  | .number setting text fault =>
    "invalid " ++ setting ++ ": " ++ Text.quoted text ++ ": " ++ fault.message
  | .zero setting => "invalid " ++ setting ++ ": must be at least 1"
  | .url text fault => "invalid URL " ++ text ++ ": " ++ fault.message
  | .scheme text expected => "invalid URL " ++ text ++ ": expected " ++ expected ++ " URL"
  | .noStream text wanted => "invalid URL " ++ text ++ ": cannot switch scheme to " ++ wanted
  | .presetFile path fault => "cannot read filter preset " ++ path ++ ": " ++ fault.message
  | .preset => "malformed filter preset"

/-- The causes of a refusal, the nearest first. -/
def Refusal.causes : Refusal → List String
  | .presetFile path fault => [(Refusal.presetFile path fault).message, fault.message]
  | r => [r.message]

/-! ## Settings -/

/-- The names of the settings. -/
def settings : List String :=
  ["THREATMAP_API_URL", "THREATMAP_WS_URL", "THREATMAP_STALE_MS", "THREATMAP_CONNECT_TIMEOUT_MS",
    "THREATMAP_FRAME_INTERVAL_MS", "THREATMAP_RESYNC_MS", "THREATMAP_FILTERS_FILE"]

/-- The text of a setting, unless it is blank. -/
def setting (s : Surroundings) (name : String) : Option String :=
  (s.setting name).bind Filter.unlessBlank

/-- A number of milliseconds: digits, with a plus sign or without. The first
character that is no digit, or the first digit that leads beyond a word, is
the fault. -/
def millis (text : String) : Except NumberFault UInt64 :=
  let digits := match text.toList with
    | '+' :: r => r
    | cs => cs
  if digits.isEmpty then .error .notDigit
  else do
    let n ← digits.foldlM (fun (n : Nat) c =>
      match Text.decimalDigit? c with
      | none => .error .notDigit
      | some d => if 10 * n + d ≤ Tally.greatest then .ok (10 * n + d) else .error .tooLarge) 0
    return UInt64.ofNat n

/-- A setting that is a number of milliseconds. -/
def time (s : Surroundings) (name : String) (usual : UInt64) : Except Refusal UInt64 :=
  match setting s name with
  | none => .ok usual
  | some text => (millis text).mapError (.number name text)

/-! ## URLs -/

/-- The path of the stream. -/
def streamPath : String := "/ws/threatmap"

/-- The URL of the stream on the host of the API. -/
def streamUrlFor (api : Url) : Except Refusal String :=
  let scheme := if api.scheme = "https" then "wss" else "ws"
  match api.withScheme? scheme with
  | some u => .ok ((u.withPath streamPath).withoutQuery.text)
  | none => .error (.noStream api.text scheme)

/-- A URL with one of two schemes. -/
def urlWith (text : String) (schemes : List String) (expected : String) : Except Refusal Url := do
  let u ← (Url.read text).mapError (.url text)
  if schemes.contains u.scheme then .ok u else .error (.scheme text expected)

/-! ## All together -/

/-- The API's URL unless told otherwise. -/
def usualApiUrl : String := "http://localhost:8000"

/-- The preset of a file. -/
def preset (s : Surroundings) (path : String) : Except Refusal Filter := do
  let bytes ← (s.file path).mapError (.presetFile path)
  match String.fromUTF8? bytes with
  | none => .error (.presetFile path .notText)
  | some text => (Filter.Preset.ofText? text).elim (.error .preset) .ok

/-- The configuration of some surroundings. -/
def load (s : Surroundings) : Except Refusal Config := do
  let apiUrl := (setting s "THREATMAP_API_URL").getD usualApiUrl
  let api ← urlWith apiUrl ["http", "https"] "an http or https"
  let streamUrl ← match setting s "THREATMAP_WS_URL" with
    | some url => do let _ ← urlWith url ["ws", "wss"] "a ws or wss"; pure url
    | none => streamUrlFor api
  let staleAfter ← time s "THREATMAP_STALE_MS" Liveness.usualStaleAfter
  let connectWithin ← time s "THREATMAP_CONNECT_TIMEOUT_MS" 5000
  let frameEvery ← time s "THREATMAP_FRAME_INTERVAL_MS" 16
  let resync ← time s "THREATMAP_RESYNC_MS" 15000
  if frameEvery = 0 then .error (.zero "THREATMAP_FRAME_INTERVAL_MS")
  let filter ← match setting s "THREATMAP_FILTERS_FILE" with
    | some path => preset s path
    | none => pure .initial
  return {
    streamUrl
    apiUrl := Text.dropTrailingSlashes apiUrl
    staleAfter
    connectWithin
    frameEvery
    resyncEvery := if resync = 0 then none else some resync
    filter }

end Config

end AttackMap
