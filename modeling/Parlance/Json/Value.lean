/-!
# Writing JSON

Values to be written as JSON text. Records keep the order in which their fields
are given. The text form puts every item and every member on a line of its own,
indented by two spaces for each level; an empty list or record stays on its line.
Controls are escaped, by letter where there is one, and everything else that is
not a quote or a backslash is written as it is.
-/

namespace Parlance.Json

/-- A value that can be written as JSON. -/
inductive Value where
  | null
  | boolean (value : Bool)
  | integer (value : Int)
  | text (value : String)
  | list (items : List Value)
  | record (fields : List (String × Value))

/-- Two lower-case hexadecimal digits for a number below 256. -/
def twoHexDigits (code : Nat) : List Char :=
  [Nat.digitChar (code / 16), Nat.digitChar (code % 16)]

/-- How one character is written inside a string literal. -/
def literalChar (c : Char) : List Char :=
  if c = '"' then ['\\', '"']
  else if c = '\\' then ['\\', '\\']
  else if c = '\n' then ['\\', 'n']
  else if c = '\r' then ['\\', 'r']
  else if c = '\t' then ['\\', 't']
  else if c = '\x08' then ['\\', 'b']
  else if c = '\x0c' then ['\\', 'f']
  else if c.toNat < 0x20 then ['\\', 'u', '0', '0'] ++ twoHexDigits c.toNat
  else [c]

/-- The string literal for `text`. -/
def literal (text : String) : String :=
  String.ofList ('"' :: text.toList.flatMap literalChar ++ ['"'])

/-- The start of a line at the given level. -/
def newLine (level : Nat) : String := String.ofList ('\n' :: List.replicate (2 * level) ' ')

mutual

/-- Write a value behind `written`, at the given level. -/
def Value.write (level : Nat) (written : String) : Value → String
  | .null => written ++ "null"
  | .boolean value => written ++ (if value then "true" else "false")
  | .integer value => written ++ toString value
  | .text value => written ++ literal value
  | .list [] => written ++ "[]"
  | .list (item :: items) =>
    Value.writeItems (level + 1) (item.write (level + 1) (written ++ "[" ++ newLine (level + 1)))
      items ++ newLine level ++ "]"
  | .record [] => written ++ "\x7b\x7d"
  | .record ((key, value) :: fields) =>
    Value.writeFields (level + 1)
      (value.write (level + 1) (written ++ "\x7b" ++ newLine (level + 1) ++ literal key ++ ": "))
      fields ++ newLine level ++ "\x7d"

/-- Write the further items of a list. -/
def Value.writeItems (level : Nat) (written : String) : List Value → String
  | [] => written
  | item :: items =>
    Value.writeItems level (item.write level (written ++ "," ++ newLine level)) items

/-- Write the further fields of a record. -/
def Value.writeFields (level : Nat) (written : String) : List (String × Value) → String
  | [] => written
  | (key, value) :: fields =>
    Value.writeFields level
      (value.write level (written ++ "," ++ newLine level ++ literal key ++ ": ")) fields

end

/-- The value as JSON text over several lines. -/
def Value.pretty (value : Value) : String := value.write 0 ""

end Parlance.Json
