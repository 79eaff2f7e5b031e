import AttackMap.Url.Domain
import AttackMap.Url.Percent

/-!
# Hosts

Where a URL points: a domain name or an address. In the schemes that this
library calls special a name that ends in a number is an IPv4 address, in
any of its old spellings, or nothing; in other schemes a name is kept as it
is written. An address in brackets is an IPv6 address.
-/

namespace AttackMap.Url

/-- Why a text is not a URL. -/
inductive Refusal where
  | relative
  | emptyHost
  | domainName
  | domainCharacter
  | port
  | ipv4
  | ipv6
  deriving DecidableEq, Repr

/-- The text of a reason. -/
def Refusal.message : Refusal → String
  | .relative => "relative URL without a base"
  | .emptyHost => "empty host"
  | .domainName => "invalid international domain name"
  | .domainCharacter => "invalid domain character"
  | .port => "invalid port number"
  | .ipv4 => "invalid IPv4 address"
  | .ipv6 => "invalid IPv6 address"

/-- A host. -/
inductive Host where
  | name (s : String)
  | ipv4 (address : Nat)
  /-- Eight groups of sixteen bits. -/
  | ipv6 (groups : List Nat)
  deriving DecidableEq, Repr

namespace Host

/-! ## IPv4 -/

/-- A number of an IPv4 address: hexadecimal after `0x`, octal after `0`,
decimal otherwise. -/
def ipv4Number? (cs : List Char) : Option Nat :=
  match cs with
  | [] => none
  | '0' :: 'x' :: r => Text.number? 16 r
  | '0' :: 'X' :: r => Text.number? 16 r
  | '0' :: d :: r => Text.number? 8 (d :: r)
  | cs => Text.number? 10 cs

/-- The labels of a name, without an empty one at the end. -/
def parts (name : List Char) : List (List Char) :=
  let labels := Domain.cut '.' name
  if labels.length > 1 ∧ labels.getLast? = some [] then labels.dropLast else labels

/-- Whether the last label of a name is a number. -/
def endsInNumber (name : List Char) : Bool :=
  match (parts name).getLast? with
  | some last =>
    (!last.isEmpty && last.all fun c => (Text.decimalDigit? c).isSome) || (ipv4Number? last).isSome
  | none => false

/-- The address that a name ending in a number spells: up to four numbers,
of which the last fills the bytes that are left. -/
def ipv4? (name : List Char) : Option Nat := do
  let numbers ← (parts name).mapM ipv4Number?
  let last ← numbers.getLast?
  let front := numbers.dropLast
  if 3 < front.length ∨ front.any (255 < ·) ∨ 256 <<< (8 * (3 - front.length)) ≤ last then none
  else some (front.zipIdx.foldl (fun sum (n, i) => sum + n <<< (8 * (3 - i))) last)

/-- The text of an IPv4 address. -/
def ipv4Text (n : Nat) : List Char :=
  let byte (i : Nat) : List Char := Text.decimal ((n >>> (8 * i)) % 256)
  byte 3 ++ '.' :: byte 2 ++ '.' :: byte 1 ++ '.' :: byte 0

/-! ## IPv6 -/

/-- The four numbers at the end of an IPv6 address, in two groups: plain
decimal numbers below 256 without leading zeros. -/
def ipv4Tail? (cs : List Char) : Option (List Nat) := do
  let numbers ← (Domain.cut '.' cs).mapM fun part =>
    if part.isEmpty ∨ 3 < part.length ∨ (1 < part.length ∧ part.head? = some '0') then none
    else do
      let n ← Text.number? 10 part
      if n ≤ 255 then some n else none
  match numbers with
  | [a, b, c, d] => some [a * 256 + b, c * 256 + d]
  | _ => none

/-- Groups between colons. The last may be an IPv4 address. -/
def groups? : List (List Char) → Option (List Nat)
  | [] => some []
  | [part] =>
    if part.contains '.' then ipv4Tail? part
    else if part.isEmpty ∨ 4 < part.length then none
    else (Text.number? 16 part).map ([·])
  | part :: rest => do
    if part.isEmpty ∨ 4 < part.length then none
    let n ← Text.number? 16 part
    return n :: (← groups? rest)

/-- The text before and after the first `::`. -/
def splitGap : List Char → Option (List Char × List Char)
  | ':' :: ':' :: r => some ([], r)
  | c :: r => (splitGap r).map fun (a, b) => (c :: a, b)
  | [] => none

/-- Groups of a part of an address; a part may be empty. -/
def side? (cs : List Char) : Option (List Nat) :=
  if cs.isEmpty then some [] else groups? (Domain.cut ':' cs)

/-- An IPv6 address: eight groups, or fewer around one gap. -/
def ipv6? (cs : List Char) : Option (List Nat) :=
  match splitGap cs with
  | none => do
    let groups ← side? cs
    if groups.length = 8 then some groups else none
  | some (before, after) => do
    let left ← side? before
    let right ← side? after
    if before.contains '.' ∨ 7 < left.length + right.length then none
    else some (left ++ List.replicate (8 - left.length - right.length) 0 ++ right)

/-- The longest run of zeros, its start and length; of equal ones the first. -/
def longestRun (groups : List Nat) : Nat × Nat :=
  let run (i : Nat) : Nat := ((groups.drop i).takeWhile (· = 0)).length
  (List.range groups.length).foldl
    (fun best i => if best.2 < run i then (i, run i) else best) (0, 0)

/-- Groups with colons between them. -/
def joined (groups : List Nat) : List Char :=
  ((groups.map (Nat.toDigits 16)).intersperse [':']).flatten

/-- The text of an IPv6 address: the longest run of at least two zeros is a
gap. -/
def ipv6Text (groups : List Nat) : List Char :=
  let (start, length) := longestRun groups
  if length < 2 then joined groups
  else joined (groups.take start) ++ [':', ':'] ++ joined (groups.drop (start + length))

/-! ## Both -/

/-- The text of a host. -/
def text : Host → List Char
  | .name s => s.toList
  | .ipv4 n => ipv4Text n
  | .ipv6 groups => '[' :: ipv6Text groups ++ [']']

/-- A host in brackets. -/
def bracketed (r : List Char) : Except Refusal Host :=
  if r.getLast? = some ']' then (ipv6? r.dropLast).elim (.error .ipv6) (.ok ∘ .ipv6)
  else .error .ipv6

/-- The host of a special scheme. -/
def ofSpecial (cs : List Char) : Except Refusal Host :=
  match cs with
  | '[' :: r => bracketed r
  | cs =>
    let bytes := ByteArray.mk (percentDecode cs).toArray
    match (String.fromUTF8? bytes).bind fun s => Domain.toAscii? s.toList with
    | none => .error .domainName
    | some [] => .error .emptyHost
    | some ascii =>
      if endsInNumber ascii then (ipv4? ascii).elim (.error .ipv4) (.ok ∘ .ipv4)
      else .ok (.name (String.ofList ascii))

/-- The host of any other scheme. -/
def ofOther (cs : List Char) : Except Refusal Host :=
  match cs with
  | '[' :: r => bracketed r
  | cs =>
    let bad := ['\x00', '\t', '\n', '\r', ' ', '#', '/', ':', '<', '>', '?', '@', '[', '\\', ']',
      '^', '|']
    if cs.any bad.contains then .error .domainCharacter
    else .ok (.name (String.ofList (percentEncode isControl cs)))

end Host

end AttackMap.Url
