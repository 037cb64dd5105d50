/-!
# JSON with comments

Grammar documents are JSON in which line comments, block comments and a comma
before a closing bracket are allowed. Two passes make plain JSON of it. The first
removes comments and keeps every newline that stood inside one, so that line
numbers survive; the second removes a comma when the next character that is not
blank closes an array or an object. Both copy string literals unchanged, and a
backslash inside a literal protects the character after it.
-/

namespace Parlance.Json

/-- What the text at hand belongs to while comments are removed. -/
inductive Zone where
  | code
  | literal
  | lineComment
  | blockComment
deriving DecidableEq, Repr

/-- Remove the comments of a text that begins inside `zone`. A line comment ends
before its newline; a block comment leaves only its newlines. -/
def uncommented : Zone → List Char → List Char
  | _, [] => []
  | .code, '"' :: rest => '"' :: uncommented .literal rest
  | .code, '/' :: '/' :: rest => uncommented .lineComment rest
  | .code, '/' :: '*' :: rest => uncommented .blockComment rest
  | .code, c :: rest => c :: uncommented .code rest
  | .literal, '"' :: rest => '"' :: uncommented .code rest
  | .literal, '\\' :: c :: rest => '\\' :: c :: uncommented .literal rest
  | .literal, c :: rest => c :: uncommented .literal rest
  | .lineComment, '\n' :: rest => '\n' :: uncommented .code rest
  | .lineComment, _ :: rest => uncommented .lineComment rest
  | .blockComment, '*' :: '/' :: rest => uncommented .code rest
  | .blockComment, '\n' :: rest => '\n' :: uncommented .blockComment rest
  | .blockComment, _ :: rest => uncommented .blockComment rest

/-- The text without its comments. -/
def stripComments (text : List Char) : List Char := uncommented .code text

/-- The blanks that may stand between a comma and a closing bracket. -/
def isSpacing (c : Char) : Bool :=
  c = ' ' || c = '\t' || c = '\n' || c = '\r' || c = '\x0c'

/-- Whether the first character of `rest` that is not blank closes an array or an
object. -/
def closesNext (rest : List Char) : Bool :=
  match rest.dropWhile isSpacing with
  | ']' :: _ => true
  | '\x7d' :: _ => true
  | _ => false

/-- Remove commas before closing brackets from a text that begins inside a string
literal or outside of one. -/
def unpadded : Bool → List Char → List Char
  | _, [] => []
  | true, '"' :: rest => '"' :: unpadded false rest
  | true, '\\' :: c :: rest => '\\' :: c :: unpadded true rest
  | true, c :: rest => c :: unpadded true rest
  | false, '"' :: rest => '"' :: unpadded true rest
  | false, ',' :: rest =>
    if closesNext rest then unpadded false rest else ',' :: unpadded false rest
  | false, c :: rest => c :: unpadded false rest

/-- The text without commas before closing brackets. -/
def stripTrailingCommas (text : List Char) : List Char := unpadded false text

/-- Plain JSON for a text with comments and trailing commas. -/
def plain (text : List Char) : List Char := stripTrailingCommas (stripComments text)

end Parlance.Json
