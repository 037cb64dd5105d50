/-!
# Sizes of text in UTF-8

Offsets in this library count bytes of the UTF-8 form of a text, while the text
itself is handled as a list of characters. This module relates the two: the
number of bytes of a text, the first byte of a character, and the least number
of characters that reach a given number of bytes. Cuts are only ever made
between characters, so no offset can fall inside one.
-/

namespace Parlance.Text

/-- The number of bytes `text` occupies in UTF-8. -/
def byteLength : List Char → Nat
  | [] => 0
  | c :: rest => c.utf8Size + byteLength rest

/-- The first byte of the UTF-8 form of `c`. A character below 128 is its own
single byte; the lead byte of a longer form carries the form's length in its
high bits and the top bits of the code point below them. -/
def leadByte (c : Char) : Nat :=
  if c.toNat < 0x80 then c.toNat
  else if c.toNat < 0x800 then 0xC0 + c.toNat / 0x40
  else if c.toNat < 0x10000 then 0xE0 + c.toNat / 0x1000
  else 0xF0 + c.toNat / 0x40000

/-- The least number of leading characters of `text` that take at least `bytes`
bytes, or all of them when the whole text is shorter than that. -/
def covering (bytes : Nat) : List Char → Nat
  | [] => 0
  | c :: rest => if bytes = 0 then 0 else 1 + covering (bytes - c.utf8Size) rest

/-- Sizes add up over concatenation. -/
theorem byteLength_append (left right : List Char) :
    byteLength (left ++ right) = byteLength left + byteLength right := by
  induction left with
  | nil => simp [byteLength]
  | cons c rest inductionHypothesis =>
    simp only [List.cons_append, byteLength, inductionHypothesis]
    omega

/-- A text has at least one byte for each character. -/
theorem length_le_byteLength (text : List Char) : text.length ≤ byteLength text := by
  induction text with
  | nil => simp [byteLength]
  | cons c rest inductionHypothesis =>
    have positive : 0 < c.utf8Size := c.utf8Size_pos
    simp only [List.length_cons, byteLength]
    omega

/-- Only the empty text takes no bytes. -/
theorem byteLength_eq_zero_iff {text : List Char} : byteLength text = 0 ↔ text = [] := by
  constructor
  · intro none
    have characters := length_le_byteLength text
    exact List.length_eq_zero_iff.mp (by omega)
  · rintro rfl
    rfl

/-- A positive number of bytes needs at least one character of a nonempty text. -/
theorem covering_pos {bytes : Nat} (needed : 0 < bytes) (c : Char) (rest : List Char) :
    0 < covering bytes (c :: rest) := by
  have nonzero : bytes ≠ 0 := by omega
  simp only [covering, nonzero, if_false]
  omega

end Parlance.Text
