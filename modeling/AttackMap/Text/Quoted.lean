import AttackMap.Text.Digits
import AttackMap.Text.Printable

/-!
# Quoted text in messages

A text shown to a person stands in quotes. Quotes and backslashes in it
have a backslash before them, NUL, tab, line feed and carriage return are
written with a letter, and every other character that does not show as
itself is written with its number, `\u{1b}`. The rest stays raw, whatever
its script.
-/

namespace AttackMap.Text

/-- How a character stands inside quotes. -/
def quotedChar (c : Char) : List Char :=
  if c = '"' then ['\\', '"']
  else if c = '\\' then ['\\', '\\']
  else if c = '\x00' then ['\\', '0']
  else if c = '\t' then ['\\', 't']
  else if c = '\r' then ['\\', 'r']
  else if c = '\n' then ['\\', 'n']
  else if isPrintable c then [c]
  else ['\\', 'u', '\x7b'] ++ Nat.toDigits 16 c.toNat ++ ['\x7d']

/-- A text in quotes. -/
def quoted (s : String) : String :=
  String.ofList ('"' :: s.toList.flatMap quotedChar ++ ['"'])

end AttackMap.Text
