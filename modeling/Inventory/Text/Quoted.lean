import Inventory.Text.Hidden

/-!
# Text — quoted form

A text between double quotes in which every character is visible: quotes and
backslashes are escaped, and a character that does not show on its own is
written by its code point.
-/

namespace Inventory.Text

/-! ## One character -/

/-- The escape that names a code point in hexadecimal. -/
def codeEscape (c : Char) : List Char :=
  '\\' :: 'u' :: '\x7b' :: Nat.toDigits 16 c.toNat ++ ['\x7d']

/-- How a quoted text writes one character. -/
def quotedChar (c : Char) : List Char :=
  if c = '\\' || c = '"' then ['\\', c]
  else if c.toNat = 0 then ['\\', '0']
  else if c = '\t' then ['\\', 't']
  else if c = '\n' then ['\\', 'n']
  else if c = '\r' then ['\\', 'r']
  else if c.toNat < 0x7F && 0x20 ≤ c.toNat then [c]
  else if isHidden c then codeEscape c
  else [c]

/-! ## Whole texts -/

/-- A text as messages quote it. -/
def quoted (s : String) : String := inQuotes quotedChar s

end Inventory.Text
