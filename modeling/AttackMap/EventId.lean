import AttackMap.Text.Ascii
import AttackMap.Text.Digits

/-!
# Event identity

An event is identified by the 128 bits of a UUID that the server assigns.
Two frames with one identity describe one detection.

Four spellings are read: thirty-two hexadecimal digits; the hyphenated form
8-4-4-4-12; that form in braces; and that form after `urn:uuid:`. Letters
may have either case. The hyphenated form in small letters is written.
-/

namespace AttackMap

/-- An identity. -/
structure EventId where
  bits : BitVec 128
  deriving DecidableEq, Repr

namespace EventId

/-- The identity with a given number. -/
def ofNat (n : Nat) : EventId := ⟨BitVec.ofNat 128 n⟩

/-- The number of an identity. -/
def toNat (id : EventId) : Nat := id.bits.toNat

/-- The digits of an identity cut into groups, hyphens between them. -/
def hyphenated : List Nat → List Char → List Char
  | [], ds => ds
  | [n], ds => ds.take n
  | n :: ns, ds => ds.take n ++ '-' :: hyphenated ns (ds.drop n)

/-- The lengths of the groups. -/
def groups : List Nat := [8, 4, 4, 4, 12]

/-- The text of an identity. -/
def text (id : EventId) : String :=
  String.ofList (hyphenated groups (Text.hexPadded 32 id.toNat))

/-- The digits of a hyphenated text without the hyphens. -/
def unhyphenated? : List Nat → List Char → Option (List Char)
  | [], cs => if cs.isEmpty then some [] else none
  | [n], cs => if cs.length = n then some cs else none
  | n :: ns, cs =>
    match cs.drop n with
    | '-' :: r => (unhyphenated? ns r).map (cs.take n ++ ·)
    | _ => none

/-- The digits of any of the four spellings. -/
def digits? (cs : List Char) : Option (List Char) :=
  if cs.length = 32 then some cs
  else
    let mark := "urn:uuid:".toList
    if (cs.take mark.length).map Char.toLower = mark then
      unhyphenated? groups (cs.drop mark.length)
    else match cs with
      | '\x7b' :: r =>
        if r.getLast? = some '\x7d' then unhyphenated? groups r.dropLast else none
      | _ => unhyphenated? groups cs

/-- Read an identity. -/
def ofText? (s : String) : Option EventId := do
  let ds ← digits? s.toList
  let n ← Text.number? 16 ds
  return ofNat n

end EventId

end AttackMap
