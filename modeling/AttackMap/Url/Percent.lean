import AttackMap.Text.Digits

/-!
# Percent encoding

A byte written as `%` and two capital hexadecimal digits. Which characters
are written so depends on the part of a URL they stand in; characters
beyond ASCII always are, byte by byte of their UTF-8 form.
-/

namespace AttackMap.Url

/-- A byte as `%` and two digits. -/
def percentByte (b : UInt8) : List Char :=
  '%' :: (Text.hexPadded 2 b.toNat).map Char.toUpper

/-- A character as the bytes of its UTF-8 form. -/
def percentChar (c : Char) : List Char := (String.utf8EncodeChar c).flatMap percentByte

/-- A text with the characters that `encoded` names, and all beyond ASCII,
written as bytes. -/
def percentEncode (encoded : Char → Bool) (cs : List Char) : List Char :=
  cs.flatMap fun c => if c.toNat < 0x80 && !encoded c then [c] else percentChar c

/-! ## Which characters -/

def isControl (c : Char) : Bool := c.toNat < 0x20 || c.toNat == 0x7F

def inFragment (c : Char) : Bool := isControl c || [' ', '"', '<', '>', '\u0060'].contains c

def inPath (c : Char) : Bool := inFragment c || ['#', '?', '\x7b', '\x7d'].contains c

def inUserInfo (c : Char) : Bool :=
  inPath c || ['/', ':', ';', '=', '@', '[', '\\', ']', '^', '|'].contains c

def inQuery (c : Char) : Bool := isControl c || [' ', '"', '#', '<', '>'].contains c

def inSpecialQuery (c : Char) : Bool := inQuery c || c == '\''

/-! ## Back to bytes -/

/-- The bytes of a text, `%` and two digits counting as one byte. -/
def percentDecode : List Char → List UInt8
  | [] => []
  | '%' :: a :: b :: r =>
    match Text.hexDigit? a, Text.hexDigit? b with
    | some x, some y => UInt8.ofNat (16 * x + y) :: percentDecode r
    | _, _ => 0x25 :: percentDecode (a :: b :: r)
  | c :: r => String.utf8EncodeChar c ++ percentDecode r

/-! ## Forms -/

/-- A value in a query: letters, digits and four marks stay, a blank becomes
a plus sign, the rest is written as bytes. -/
def formEncode (s : String) : List Char :=
  s.toList.flatMap fun c =>
    if c.isAlphanum || ['*', '-', '.', '_'].contains c then [c]
    else if c == ' ' then ['+']
    else percentChar c

end AttackMap.Url
