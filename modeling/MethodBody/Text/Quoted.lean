import MethodBody.Text.Invisible

/-!
# Quoted strings

A string is written between double quotes. The quote, the backslash and the common controls have
two-character escapes, every other character without a visible form is written by its code point,
and all else stands for itself.
-/

namespace MethodBody.Text

/-- The code point of a character between braces, in hexadecimal without leading zeros. -/
def codePoint (c : Char) : List Char :=
  ['\\', 'u', '\x7b'] ++ Nat.toDigits 16 c.toNat ++ ['\x7d']

/-- How one character is written inside quotes. -/
def escape (c : Char) : List Char :=
  if c = '\x00' then ['\\', '0']
  else if c = '\t' then ['\\', 't']
  else if c = '\r' then ['\\', 'r']
  else if c = '\n' then ['\\', 'n']
  else if c = '\x22' then ['\\', '\x22']
  else if c = '\\' then ['\\', '\\']
  else if ' ' ≤ c ∧ c ≤ '~' then [c]
  else if isInvisible c then codePoint c
  else [c]

/-- The quoted text of a string. -/
def quoted (s : String) : String :=
  String.ofList ('\x22' :: s.toList.flatMap escape ++ ['\x22'])

end MethodBody.Text
