import AttackMap.Url.Basic

/-!
# Reading URLs

A text without a base to be relative to. Blanks and controls at its ends do
not count, nor do tabs and line breaks anywhere. The parts come one after
the other: scheme, user and host, port, path, query, fragment.

In special schemes a backslash counts as a slash and any number of slashes
may stand before the host. In a path, a segment of one dot is left out and
one of two dots takes the segment before it along.
-/

namespace AttackMap.Url

/-- The characters of a text that count. -/
def significant (s : String) : List Char :=
  let low (c : Char) : Bool := c.toNat ≤ 0x20
  let trimmed := ((s.toList.dropWhile low).reverse.dropWhile low).reverse
  trimmed.filter fun c => c != '\t' && c != '\n' && c != '\r'

/-- A scheme and what follows its colon. -/
def scheme? (cs : List Char) : Option (String × List Char) :=
  let name := cs.takeWhile fun c => c.isAlphanum || c == '+' || c == '-' || c == '.'
  match name, cs.drop name.length with
  | c :: _, ':' :: rest =>
    if c.isAlpha then some (String.ofList (name.map Char.toLower), rest) else none
  | _, _ => none

/-- Whether a character ends the part before the path. -/
def endsHost (isSpecial : Bool) (c : Char) : Bool :=
  c == '/' || c == '?' || c == '#' || (isSpecial && c == '\\')

/-! ## Path, query and fragment -/

/-- The segments of a path, each with whether a slash follows it. -/
def segments (isSpecial : Bool) : List Char → List (List Char × Bool)
  | [] => [([], false)]
  | c :: r =>
    if c = '/' ∨ (isSpecial ∧ c = '\\') then ([], true) :: segments isSpecial r
    else match segments isSpecial r with
      | [] => [([c], false)]
      | (s, slash) :: rest => (c :: s, slash) :: rest

/-- How many dots a segment stands for, a dot being possibly encoded. -/
def dots : List Char → Option Nat
  | [] => some 0
  | '.' :: r => (dots r).map (· + 1)
  | '%' :: '2' :: 'e' :: r => (dots r).map (· + 1)
  | '%' :: '2' :: 'E' :: r => (dots r).map (· + 1)
  | _ => none

/-- The segments of a path with the dotted ones carried out; `done` in
reverse. -/
def resolve : List (List Char × Bool) → List (List Char) → List (List Char)
  | [], done => done.reverse
  | (s, slash) :: rest, done =>
    match dots s with
    | some 1 => resolve rest (if slash then done else [] :: done)
    | some 2 => resolve rest (if slash then done.drop 1 else [] :: done.drop 1)
    | _ => resolve rest (percentEncode inPath s :: done)

/-- A path from its first segment on. -/
def pathOf (isSpecial : Bool) (cs : List Char) : List Char :=
  (resolve (segments isSpecial cs) []).flatMap ('/' :: ·)

/-- The text up to a query or fragment, and the rest. -/
def splitPath (cs : List Char) : List Char × List Char :=
  cs.span fun c => c != '?' && c != '#'

/-- The query and the fragment. -/
def tail (isSpecial : Bool) (cs : List Char) : Option String × Option String :=
  let encodeFragment (cs : List Char) : String := String.ofList (percentEncode inFragment cs)
  match cs with
  | '?' :: r =>
    let (query, rest) := r.span (· != '#')
    let query := percentEncode (if isSpecial then inSpecialQuery else inQuery) query
    (some (String.ofList query), match rest with
      | '#' :: f => some (encodeFragment f)
      | _ => none)
  | '#' :: f => (none, some (encodeFragment f))
  | _ => (none, none)

/-- The path after a host. A special URL always has one. -/
def pathAfterHost (isSpecial : Bool) (cs : List Char) : List Char :=
  match cs with
  | [] => if isSpecial then ['/'] else []
  | c :: r =>
    if c = '/' ∨ (isSpecial ∧ c = '\\') then pathOf isSpecial r else pathOf isSpecial cs

/-! ## User, host and port -/

/-- The text before the last `@` of what stands before the path, and what
follows it. -/
def splitUser (isSpecial : Bool) (cs : List Char) : Option (List Char) × List Char :=
  let (front, rest) := cs.span (!endsHost isSpecial ·)
  if front.contains '@' then
    let host := (front.reverse.takeWhile (· != '@')).reverse
    (some (front.take (front.length - host.length - 1)), host ++ rest)
  else (none, cs)

/-- The text of a host, and what follows it; a colon in brackets belongs to
the host. -/
def splitHost (isSpecial : Bool) : Bool → List Char → List Char × List Char
  | _, [] => ([], [])
  | inside, c :: r =>
    if endsHost isSpecial c ∨ (c = ':' ∧ ¬inside) then ([], c :: r)
    else
      let inside := c = '[' || (inside && c != ']')
      let (host, rest) := splitHost isSpecial inside r
      (c :: host, rest)

/-- A port after its colon. -/
def port (scheme : String) (cs : List Char) : Except Refusal (Option Nat × List Char) :=
  let (digits, rest) := cs.span fun c => (Text.decimalDigit? c).isSome
  let ended := match rest with
    | [] => true
    | c :: _ => endsHost true c
  let n := (Text.number? 10 digits).getD 0
  if 65535 < n ∨ !ended then .error .port
  else .ok (if digits.isEmpty then none else explicitPort scheme (some n), rest)

/-- A user name and a password. -/
def userInfo (cs : List Char) : String × String :=
  let (name, rest) := cs.span (· != ':')
  let encode (cs : List Char) : String := String.ofList (percentEncode inUserInfo cs)
  (encode name, encode (rest.drop 1))

/-- Everything after the slashes before a host. -/
def ofAuthority (scheme : String) (cs : List Char) : Except Refusal Url := do
  let isSpecial := special.contains scheme
  let (user, rest) := splitUser isSpecial cs
  let (username, password) := (user.map userInfo).getD ("", "")
  let (hostText, rest) := splitHost isSpecial false rest
  if hostText.isEmpty && (isSpecial || rest.head? == some ':' || !username.isEmpty
      || !password.isEmpty || (user == some [] && !rest.isEmpty)) then .error .emptyHost
  else
    let host ← if hostText.isEmpty then pure none
      else some <$> (if isSpecial then Host.ofSpecial hostText else Host.ofOther hostText)
    let (port, rest) ← match rest with
      | ':' :: r => port scheme r
      | _ => pure (none, rest)
    let (path, rest) := splitPath rest
    let (query, fragment) := tail isSpecial rest
    return {
      scheme
      authority := some ⟨username, password, host, port⟩
      path := String.ofList (pathAfterHost isSpecial path)
      query
      fragment }

/-! ## The three kinds of scheme -/

/-- A file's URL: its host may be empty, and one called `localhost` is. -/
def ofFile (cs : List Char) : Except Refusal Url := do
  let isSlash (c : Char) : Bool := c == '/' || c == '\\'
  let (hostText, rest) := match cs with
    | a :: b :: r =>
      if isSlash a && isSlash b then r.span (!endsHost true ·) else ([], cs)
    | _ => ([], cs)
  let host ← if hostText.isEmpty then pure none else some <$> Host.ofSpecial hostText
  let (path, rest) := splitPath rest
  let (query, fragment) := tail true rest
  let named := (pathOf true (path.dropWhile isSlash)).dropWhile (· == '/')
  return {
    scheme := "file"
    authority := some ⟨"", "", if host = some (.name "localhost") then none else host, none⟩
    path := String.ofList ('/' :: named)
    query
    fragment }

/-- A URL without special meaning. Without slashes, its path is any text. -/
def ofOther (scheme : String) (cs : List Char) : Except Refusal Url :=
  match cs with
  | '/' :: '/' :: r => ofAuthority scheme r
  | cs =>
    let (path, rest) := splitPath cs
    let (query, fragment) := tail false rest
    let path := match path with
      | '/' :: r => pathOf false r
      | path => percentEncode isControl path
    .ok { scheme, authority := none, path := String.ofList path, query, fragment }

/-- Read a URL. -/
def read (s : String) : Except Refusal Url :=
  match scheme? (significant s) with
  | none => .error .relative
  | some (scheme, rest) =>
    if scheme = "file" then ofFile rest
    else if special.contains scheme then
      ofAuthority scheme (rest.dropWhile fun c => c == '/' || c == '\\')
    else ofOther scheme rest

end AttackMap.Url
