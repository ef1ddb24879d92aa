/-
  Rationale — texts quoted in messages.

  A quoted text stands between double quotes.  The quote and the backslash are
  escaped by a backslash, line ends, tabs and the null character have their
  letters, and every other control character, and every blank but the plain
  space, is written by its code point in lower-case hexadecimal.
-/
import Rationale.Text.Blank

namespace Rationale.Text

/-- Characters of the Unicode category Cc. -/
def isControl (c : Char) : Bool :=
  c.toNat < 0x20 || (0x7F ≤ c.toNat && c.toNat ≤ 0x9F)

/-- One character of a quoted text. -/
def escape (c : Char) : List Char :=
  if c = '\\' then ['\\', '\\']
  else if c = '"' then ['\\', '"']
  else if c = '\n' then ['\\', 'n']
  else if c = '\r' then ['\\', 'r']
  else if c = '\t' then ['\\', 't']
  else if c = '\x00' then ['\\', '0']
  else if isControl c || (isBlank c && c ≠ ' ') then
    ['\\', 'u', '\x7b'] ++ Nat.toDigits 16 c.toNat ++ ['\x7d']
  else [c]

/-- The text in double quotes. -/
def quoted (s : String) : String :=
  String.ofList ('"' :: s.toList.flatMap escape ++ ['"'])

end Rationale.Text
