import AttackMap.Text.Blank
import AttackMap.Url.Punycode

/-!
# Domain names

A domain name is compared in one form: small letters, ASCII only, labels
beyond ASCII spelled by their numbers after `xn--`. Characters that look
like a dot separate labels, characters that are never seen vanish, and wide
forms of ASCII characters count as those.

Letters have a small form in the scripts of `smallLetter`; in the others a
letter is its own small form.
-/

namespace AttackMap.Url.Domain

/-- The ASCII characters that no domain name holds. -/
def isForbidden (c : Char) : Bool :=
  c.toNat ≤ 0x20 || c.toNat == 0x7F
    || ['#', '/', ':', '<', '>', '?', '@', '[', '\\', ']', '^', '|', '%'].contains c

/-- Capitals that stand in front of their small letter: the first and the
last of a run in steps of two. -/
def alternating : List (Nat × Nat) :=
  [(0x100, 0x12E), (0x132, 0x136), (0x139, 0x147), (0x14A, 0x176), (0x179, 0x17D),
   (0x3D8, 0x3EE), (0x460, 0x480), (0x48A, 0x4BE), (0x4C1, 0x4CD), (0x4D0, 0x52E),
   (0x1E00, 0x1E94), (0x1EA0, 0x1EFE)]

/-- Capitals at a fixed distance from their small letter: the first and the
last of a run, and the distance. -/
def shifted : List (Nat × Nat × Nat) :=
  [(0x41, 0x5A, 32), (0xC0, 0xD6, 32), (0xD8, 0xDE, 32), (0x386, 0x386, 38), (0x388, 0x38A, 37),
   (0x38C, 0x38C, 64), (0x38E, 0x38F, 63), (0x391, 0x3A1, 32), (0x3A3, 0x3AB, 32),
   (0x400, 0x40F, 80), (0x410, 0x42F, 32), (0x531, 0x556, 48)]

/-- The small form of a letter. -/
def smallLetter (c : Char) : Char :=
  let n := c.toNat
  match shifted.find? fun (low, high, _) => low ≤ n && n ≤ high with
  | some (_, _, d) => Char.ofNat (n + d)
  | none =>
    if n = 0x178 then Char.ofNat 0xFF
    else if alternating.any fun (low, high) => low ≤ n && n ≤ high && (n - low) % 2 == 0 then
      Char.ofNat (n + 1)
    else c

/-- What a character counts as in a domain name; none if it may not stand
there. -/
def folded? (c : Char) : Option (List Char) :=
  let n := c.toNat
  if n = 0xAD ∨ n = 0x200B ∨ n = 0x2060 ∨ n = 0xFEFF ∨ (0xFE00 ≤ n ∧ n ≤ 0xFE0F) then some []
  else if n = 0x3002 ∨ n = 0xFF0E ∨ n = 0xFF61 then some ['.']
  else
    let c := if 0xFF01 ≤ n ∧ n ≤ 0xFF5E then Char.ofNat (n - 0xFEE0) else c
    if isForbidden c || Text.isBlank c then none
    else if (0x80 ≤ n ∧ n < 0xA0) ∨ (0x200C ≤ n ∧ n ≤ 0x206F) ∨ (0xE000 ≤ n ∧ n ≤ 0xF8FF)
        ∨ (0xFFF0 ≤ n ∧ n ≤ 0xFFFF) ∨ 0xE0000 ≤ n then none
    else some [smallLetter c]

/-- The text cut at a character. -/
def cut (mark : Char) : List Char → List (List Char)
  | [] => [[]]
  | c :: r =>
    if c = mark then [] :: cut mark r
    else match cut mark r with
      | [] => [[c]]
      | first :: rest => (c :: first) :: rest

/-- The mark of a label that is spelled by numbers. -/
def mark : List Char := ['x', 'n', '-', '-']

/-- A label in ASCII. A label that comes with the mark must be the spelling
of some other label. -/
def label? (label : List Char) : Option (List Char) :=
  if label.all fun c => c.toNat < 0x80 then
    if label.take 4 = mark then do
      let plain ← Punycode.decode? (label.drop 4)
      let small ← plain.mapM folded?
      if plain.any (0x80 ≤ ·.toNat) && small.flatten == plain
          && Punycode.encode plain == label.drop 4 then some label
      else none
    else some label
  else some (mark ++ Punycode.encode label)

/-- A domain name in ASCII. -/
def toAscii? (name : List Char) : Option (List Char) := do
  let folded ← name.mapM folded?
  let labels ← (cut '.' folded.flatten).mapM label?
  return (labels.intersperse ['.']).flatten

end AttackMap.Url.Domain
