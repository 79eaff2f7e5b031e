/-!
# Punycode

A label beyond ASCII spelled in ASCII: its ASCII characters first, then the
others in ascending order, each as the distance from the place before it.
A distance is a number of variable length in base 36 whose thresholds adapt
to the distances already written.
-/

namespace AttackMap.Url.Punycode

/-- The digit of a value below 36. -/
def digit (d : Nat) : Char :=
  if d < 26 then Char.ofNat ('a'.toNat + d) else Char.ofNat ('0'.toNat + (d - 26))

/-- The value of a digit. -/
def value? (c : Char) : Option Nat :=
  if 'a' ≤ c ∧ c ≤ 'z' then some (c.toNat - 'a'.toNat)
  else if 'A' ≤ c ∧ c ≤ 'Z' then some (c.toNat - 'A'.toNat)
  else if '0' ≤ c ∧ c ≤ '9' then some (c.toNat - '0'.toNat + 26)
  else none

/-- The threshold of the digit at place `k`. -/
def threshold (k bias : Nat) : Nat := max 1 (min 26 (k - bias))

/-- Divide by 35 while the distance is large; the count of divisions. -/
def shrink : Nat → Nat → Nat × Nat
  | 0, delta => (0, delta)
  | fuel + 1, delta =>
    if 455 < delta then
      let (n, d) := shrink fuel (delta / 35)
      (n + 1, d)
    else (0, delta)

/-- The bias after a distance, with so many characters placed. -/
def adapt (delta placed : Nat) (first : Bool) : Nat :=
  let delta := if first then delta / 700 else delta / 2
  let (n, d) := shrink delta (delta + delta / placed)
  36 * n + 36 * d / (d + 38)

/-- A distance in digits, from place `k` on. -/
def distance : Nat → Nat → Nat → Nat → List Char
  | 0, _, _, _ => []
  | fuel + 1, bias, k, q =>
    let t := threshold k bias
    if q < t then [digit q]
    else digit (t + (q - t) % (36 - t)) :: distance fuel bias (k + 36) ((q - t) / (36 - t))

/-- The writer between two characters of the label. -/
structure Writer where
  text : List Char
  delta : Nat
  bias : Nat
  placed : Nat

/-- Pass one character of the label while the characters `n` are placed. -/
def Writer.pass (basic n : Nat) (w : Writer) (c : Char) : Writer :=
  if c.toNat < n then { w with delta := w.delta + 1 }
  else if c.toNat = n then
    { text := w.text ++ distance (w.delta + 1) w.bias 36 w.delta
      delta := 0
      bias := adapt w.delta (w.placed + 1) (w.placed = basic)
      placed := w.placed + 1 }
  else w

/-- The spelling of a label. -/
def encode (label : List Char) : List Char :=
  let plain := label.filter fun c => c.toNat < 0x80
  let others := ((label.filter fun c => 0x80 ≤ c.toNat).map Char.toNat).eraseDups.mergeSort
  let start : Writer := ⟨if plain.isEmpty then [] else plain ++ ['-'], 0, 72, plain.length⟩
  let (_, w) := others.foldl
    (fun (n, w) next =>
      let w := { w with delta := w.delta + (next - n) * (w.placed + 1) }
      let w := label.foldl (Writer.pass plain.length next) w
      (next + 1, { w with delta := w.delta + 1 }))
    (0x80, start)
  w.text

/-- The distance at the front: its value and what follows. -/
def distance? (bias : Nat) : List Char → Nat → Nat → Nat → Option (Nat × List Char)
  | [], _, _, _ => none
  | c :: r, k, weight, sum => do
    let d ← value? c
    let sum := sum + d * weight
    let t := threshold k bias
    if d < t then some (sum, r) else distance? bias r (k + 36) (weight * (36 - t)) sum

/-- Place the characters that distances spell into a label. The next
character is at least `n` and stands at `i` or after; `first` says that none
has been placed. -/
def place : Nat → List Char → List Char → Nat → Nat → Nat → Bool → Option (List Char)
  | _, [], label, _, _, _, _ => some label
  | 0, _ :: _, _, _, _, _, _ => none
  | fuel + 1, cs, label, n, i, bias, first => do
    let (d, rest) ← distance? bias cs 36 1 0
    let size := label.length + 1
    let next := n + (i + d) / size
    let spot := (i + d) % size
    if h : next.isValidChar then
      place fuel rest (label.take spot ++ Char.ofNatAux next h :: label.drop spot) next (spot + 1)
        (adapt d size first) false
    else none

/-- The label that a spelling stands for. -/
def decode? (cs : List Char) : Option (List Char) :=
  let tail := (cs.reverse.takeWhile (· ≠ '-')).reverse
  let plain := cs.take (cs.length - tail.length - 1)
  if plain.any (0x80 ≤ ·.toNat) then none
  else place (tail.length + 1) tail plain 0x80 0 72 true

end AttackMap.Url.Punycode
