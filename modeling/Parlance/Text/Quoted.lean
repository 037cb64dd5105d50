import Parlance.Text.Printable

/-!
# Quoted text

The form in which a text is shown inside listings and log lines: between double
quotes, with the quote and the backslash escaped, the common controls written by
letter, and every other character that has no visible form of its own written by
its code point in lower-case hexadecimal.
-/

namespace Parlance.Text

/-- The spelling of `code` in lower-case hexadecimal, without leading zeros. -/
def hexadecimal (code : Nat) : List Char := Nat.toDigits 16 code

/-- How one character is written between double quotes. -/
def quotedChar (c : Char) : List Char :=
  if c.toNat = 0 then ['\\', '0']
  else if c = '\t' then ['\\', 't']
  else if c = '\r' then ['\\', 'r']
  else if c = '\n' then ['\\', 'n']
  else if c = '"' then ['\\', '"']
  else if c = '\\' then ['\\', '\\']
  else if isPrintable c then [c]
  else ['\\', 'u', '\x7b'] ++ hexadecimal c.toNat ++ ['\x7d']

/-- The text between double quotes. -/
def quoted (text : String) : String :=
  String.ofList ('"' :: text.toList.flatMap quotedChar ++ ['"'])

end Parlance.Text
