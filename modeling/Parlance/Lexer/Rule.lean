import Parlance.Text.Utf8

/-!
# Rules for regions

A rule recognizes regions of a text by the pattern they start with. The region is
the pattern alone, or runs through the next occurrence of an end pattern, or has a
length that is computed from the text. An escape character inside a region with an
end pattern protects the character after it; a region whose end pattern does not
occur runs to the end of the text. Regions of a filtered rule give no tokens.
-/

namespace Parlance

/-- How a region ends. -/
inductive Ending where
  /-- With its start pattern. -/
  | none
  /-- Behind the next occurrence of a pattern. -/
  | pattern (text : String)
  /-- After the number of bytes computed from the text that begins with the
  region. -/
  | measured (length : List Char → Nat)

/-- A rule for regions; the start pattern is not empty. -/
structure Rule where
  start : String
  ending : Ending
  escape : Option Char := Option.none
  filtered : Bool := false
  startNonempty : start.toList ≠ []

namespace Rule

/-- The number of characters up to and with the first end pattern that begins at a
character which neither is an escape character that protects another nor is
protected by one; all of them when there is none. -/
def throughPattern (escape : Option Char) (final : List Char) : List Char → Nat
  | [] => 0
  | [c] => if escape = some c then 1 else if final.isPrefixOf [c] then final.length else 1
  | c :: next :: rest =>
    if escape = some c then 2 + throughPattern escape final rest
    else if final.isPrefixOf (c :: next :: rest) then final.length
    else 1 + throughPattern escape final (next :: rest)

/-- The number of characters of the region at the start of `text`, which begins
with the rule's pattern. A computed length is brought between the length of the
pattern and that of the text, and a cut inside a character moves behind it. -/
def regionLength (rule : Rule) (text : List Char) : Nat :=
  let pattern := rule.start.toList
  match rule.ending with
  | .none => pattern.length
  | .pattern final =>
    pattern.length + throughPattern rule.escape final.toList (text.drop pattern.length)
  | .measured length =>
    Text.covering
      (max (Text.byteLength pattern) (min (length text) (Text.byteLength text))) text

/-- A region takes at least one character of a text that is not empty, so scanning
always advances: a start pattern has at least one character, and at least one
byte. -/
theorem regionLength_pos (rule : Rule) (c : Char) (rest : List Char) :
    0 < rule.regionLength (c :: rest) := by
  have characters : 0 < rule.start.toList.length := List.length_pos_iff.mpr rule.startNonempty
  have bytes : 0 < Text.byteLength rule.start.toList :=
    Nat.lt_of_lt_of_le characters (Text.length_le_byteLength _)
  simp only [regionLength]
  split
  · exact characters
  · exact Nat.lt_of_lt_of_le characters (Nat.le_add_right _ _)
  · exact Text.covering_pos (Nat.lt_of_lt_of_le bytes (Nat.le_max_left _ _)) c rest

end Rule

end Parlance
