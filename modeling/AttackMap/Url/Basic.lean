import AttackMap.Url.Host

/-!
# URLs

A URL taken apart, its text, and the three changes that the client makes:
another scheme, another path, no query.

Six schemes are special: they have a host, a default port that is not
written, and a path that begins with a slash.
-/

namespace AttackMap

namespace Url

/-- The host part of a URL and what belongs to it. -/
structure Authority where
  username : String
  password : String
  /-- None where the text has an empty host. -/
  host : Option Host
  /-- None for the default port of the scheme. -/
  port : Option Nat
  deriving DecidableEq, Repr

end Url

/-- A URL. The parts hold what their text holds, percent-encoded. -/
structure Url where
  scheme : String
  authority : Option Url.Authority
  path : String
  query : Option String
  fragment : Option String
  deriving DecidableEq, Repr

namespace Url

/-! ## Schemes -/

def special : List String := ["http", "https", "ws", "wss", "ftp", "file"]

def isSpecial (u : Url) : Bool := special.contains u.scheme

/-- The port that a scheme implies. -/
def defaultPort (scheme : String) : Option Nat :=
  match scheme with
  | "http" | "ws" => some 80
  | "https" | "wss" => some 443
  | "ftp" => some 21
  | _ => none

/-- A port, unless the scheme implies it. -/
def explicitPort (scheme : String) (port : Option Nat) : Option Nat :=
  if port = defaultPort scheme then none else port

/-- Whether there is a host. -/
def hasHost (u : Url) : Bool := (u.authority.bind (·.host)).isSome

/-! ## The text -/

/-- The text of a user name and password. -/
def Authority.userText (a : Authority) : List Char :=
  if a.username.isEmpty && a.password.isEmpty then []
  else
    a.username.toList
      ++ (if a.password.isEmpty then [] else ':' :: a.password.toList) ++ ['@']

/-- The text of an authority. -/
def Authority.text (a : Authority) : List Char :=
  ['/', '/'] ++ a.userText ++ a.host.elim [] Host.text
    ++ a.port.elim [] fun n => ':' :: Text.decimal n

/-- The text of a URL. A path that begins with two slashes is kept apart
from an authority that is not there. -/
def text (u : Url) : String :=
  String.ofList <|
    u.scheme.toList ++ ':' :: u.authority.elim
      (if u.path.toList.take 2 = ['/', '/'] then ['/', '.'] else []) Authority.text
      ++ u.path.toList ++ u.query.elim [] (fun q => '?' :: q.toList)
      ++ u.fragment.elim [] fun f => '#' :: f.toList

/-! ## Changes -/

/-- The URL in another special scheme; only a special URL with a host has
one. -/
def withScheme? (u : Url) (scheme : String) : Option Url :=
  if u.isSpecial && u.hasHost then
    some
      { u with
        scheme
        authority := u.authority.map fun a => { a with port := explicitPort scheme a.port } }
  else none

/-- The URL with another path. -/
def withPath (u : Url) (path : String) : Url := { u with path }

/-- The URL without its query. -/
def withoutQuery (u : Url) : Url := { u with query := none }

/-- The URL with names and values added to its query. -/
def addPairs (u : Url) (pairs : List (String × String)) : Url :=
  let pair (p : String × String) : List Char := formEncode p.1 ++ '=' :: formEncode p.2
  let added := ((pairs.map pair).intersperse ['&']).flatten
  let old := (u.query.getD "").toList
  { u with
    query := some (String.ofList (if old.isEmpty ∨ added.isEmpty then old ++ added
      else old ++ '&' :: added)) }

/-- What is asked of the host: path and query. -/
def target (u : Url) : String :=
  (if u.path.isEmpty then "/" else u.path) ++ u.query.elim "" fun q => "?" ++ q

end Url

end AttackMap
