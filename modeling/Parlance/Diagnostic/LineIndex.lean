import Parlance.Text.Utf8

/-!
# Lines of a text

An index of the byte offsets at which the lines of a text begin. It finds the line
and the byte column of an offset, and the bytes of a line without its newline.
Lines and columns are counted from zero here. A text always has a first line, and
an offset behind the end belongs to the last one.
-/

namespace Parlance

/-- Where the lines of a text begin, and how many bytes the text has. -/
structure LineIndex where
  starts : List Nat
  size : Nat
deriving DecidableEq, Repr

namespace LineIndex

/-- The offsets behind the newlines of a text that begins at `offset`. -/
def startsFrom (offset : Nat) : List Char → List Nat
  | [] => []
  | c :: rest =>
    let next := offset + c.utf8Size
    if c = '\n' then next :: startsFrom next rest else startsFrom next rest

/-- The index of a text. -/
def ofText (text : List Char) : LineIndex :=
  ⟨0 :: startsFrom 0 text, Text.byteLength text⟩

/-- The number of lines. -/
def lineCount (index : LineIndex) : Nat := index.starts.length

/-- The line of an offset and its distance from the start of that line. -/
def lineAndColumn (index : LineIndex) (offset : Nat) : Nat × Nat :=
  let line := (index.starts.takeWhile (· ≤ offset)).length - 1
  (line, offset - index.starts.getD line 0)

/-- The first byte of a line and the one behind its last, its newline left out. -/
def lineRange? (index : LineIndex) (line : Nat) : Option (Nat × Nat) :=
  match index.starts.drop line with
  | [] => none
  | [start] => some (start, index.size)
  | start :: next :: _ => some (start, next - 1)

/-- The bytes of `text` from one offset to another, both between characters. -/
def slice (text : List Char) (first last : Nat) : List Char :=
  let behind := text.drop (Text.covering first text)
  behind.take (Text.covering (last - first) behind)

/-- The text of a line without its newline and without a carriage return before it. -/
def lineText? (index : LineIndex) (text : List Char) (line : Nat) : Option (List Char) :=
  (index.lineRange? line).map fun range =>
    let content := slice text range.1 range.2
    if content.getLast? = some '\r' then content.dropLast else content

end LineIndex

end Parlance
