import Parlance.Text.Utf8

/-!
# Positions in a text

A position is a line counted from one, a column counted in characters from
zero, and an offset counted in bytes. Moving over a character adds its size to
the offset; a newline begins the next line and any other character adds one
column.

Lines, columns and offsets are natural numbers without a largest one. They are
places in a text that is held in memory, so its number of bytes fits a machine
word, and with it every offset, every length and the sum of the offset and the
length of a piece of the text. This is assumed of all positions here and nothing
is said about numbers beyond a machine word.
-/

namespace Parlance

/-- A place in a source text. The offset is the number of bytes before the place,
and so no larger than the text, whose size is assumed to fit a machine word. -/
structure Position where
  line : Nat := 1
  column : Nat := 0
  offset : Nat := 0
deriving DecidableEq, Repr, Inhabited

namespace Position

/-- The position after reading `c` here. -/
def step (position : Position) (c : Char) : Position :=
  if c = '\n' then
    { line := position.line + 1, column := 0, offset := position.offset + c.utf8Size }
  else
    { line := position.line, column := position.column + 1,
      offset := position.offset + c.utf8Size }

/-- The position after reading all of `text` here. -/
def advance (position : Position) (text : List Char) : Position :=
  text.foldl step position

/-- Reading two texts in turn is reading their concatenation. -/
theorem advance_append (position : Position) (left right : List Char) :
    position.advance (left ++ right) = (position.advance left).advance right := by
  simp [advance, List.foldl_append]

/-- The offset grows by the number of bytes read. -/
theorem advance_offset (position : Position) (text : List Char) :
    (position.advance text).offset = position.offset + Text.byteLength text := by
  induction text generalizing position with
  | nil => simp [advance, Text.byteLength]
  | cons c rest inductionHypothesis =>
    have moved : (position.step c).offset = position.offset + c.utf8Size := by
      simp only [step]
      split <;> rfl
    have continued := inductionHypothesis (position.step c)
    simp only [advance, List.foldl_cons, Text.byteLength] at continued ⊢
    omega

end Position

end Parlance
