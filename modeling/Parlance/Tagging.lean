import Parlance.Literal.Floating
import Parlance.Literal.Word
import Parlance.Token

/-!
# Tagging

A tagger knows one kind of text and gives it a class. A chain asks its taggers in
turn; the first one that knows the text decides, and text that none of them knows
is a deliminator. The standard chain asks for a symbol, a boolean, a character, a
string, an integer and a floating number, in that order, and leaves the two
boolean words to the second.
-/

namespace Parlance

/-- The class of a text, for texts of the kind the tagger knows. -/
abbrev Tagger := String → Option Tag

namespace Tagger

/-- Give `tag` to the texts that satisfy `test`. -/
def when (tag : Tag) (test : String → Bool) : Tagger :=
  fun text => if test text then some tag else none

/-- Symbols other than the excluded words. -/
def symbol (excluded : List String) : Tagger :=
  when .symbol fun text => Literal.isSymbol text.toList && !excluded.contains text

/-- The two boolean words. -/
def boolean (trueWord falseWord : String) : Tagger :=
  when .booleanLiteral fun text => (Literal.boolean trueWord falseWord text).isOk

/-- Character literals. -/
def character (opening closing : String) (escapes : Bool) : Tagger :=
  when .characterLiteral fun text => (Literal.character opening closing escapes text).isOk

/-- String literals; faulty escape sequences do not matter here. -/
def string (opening closing : String) : Tagger :=
  when .stringLiteral (Literal.isString opening closing)

/-- Integer literals of any size. -/
def integer : Tagger := when .integerLiteral Literal.isInteger

/-- Floating literals, those with an exponent only when `scientific` is set. -/
def floating (scientific : Bool) : Tagger := when .floatingLiteral (Literal.isFloating scientific)

/-- Exactly one text. -/
def exactly (word : String) (tag : Tag) : Tagger := when tag (fun text => text = word)

end Tagger

/-- Taggers in the order in which they are asked. -/
abbrev Chain := List Tagger

namespace Chain

/-- The standard chain for the given conventions. -/
def standard (conventions : Literal.Conventions) : Chain := [
  Tagger.symbol [conventions.trueWord, conventions.falseWord],
  Tagger.boolean conventions.trueWord conventions.falseWord,
  Tagger.character conventions.charOpen conventions.charClose conventions.allowEscapes,
  Tagger.string conventions.stringOpen conventions.stringClose,
  Tagger.integer,
  Tagger.floating conventions.allowScientific]

/-- The class of `text`. -/
def classify (chain : Chain) (text : String) : Tag :=
  (chain.findSome? (fun tagger => tagger text)).getD .deliminator

end Chain

end Parlance
