import Arbor.Text.Unmarked

/-!
# Quoted text

Text inside a log message stands between double quotes, so that blanks and
control characters can be told apart.

* A quote and a backslash get a backslash in front.
* Tab, line feed, carriage return and NUL have short names.
* Any other character without a mark of its own is written by its number.
* All else stands as it is.
-/

namespace Arbor.Text

/-- A character by its number in hexadecimal. -/
def numbered (c : Char) : List Char :=
  ['\\', 'u', '\x7b'] ++ Nat.toDigits 16 c.toNat ++ ['\x7d']

/-- A character as it stands between quotes. -/
def quotedChar (c : Char) : List Char :=
  if c = '"' ∨ c = '\\' then ['\\', c]
  else if c = '\t' then ['\\', 't']
  else if c = '\n' then ['\\', 'n']
  else if c = '\r' then ['\\', 'r']
  else if c.toNat = 0 then ['\\', '0']
  else if isUnmarked c then numbered c
  else [c]

/-- A text between quotes. -/
def quoted (s : String) : String :=
  String.ofList ('"' :: s.toList.flatMap quotedChar ++ ['"'])

end Arbor.Text
