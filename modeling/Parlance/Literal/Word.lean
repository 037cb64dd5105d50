import Parlance.Literal.Basic
import Parlance.Text.Alphabetic
import Parlance.Text.Numeric

/-!
# Symbols and boolean words

A symbol begins with a letter or an underscore and goes on with letters, numbers
and underscores, in the sense of Unicode. The boolean literals are two words of
the configuration, which need not look like symbols.
-/

namespace Parlance.Literal

/-- Whether a symbol may begin with `c`. -/
def beginsSymbol (c : Char) : Bool := Text.isAlphabetic c || c = '_'

/-- Whether a symbol may go on with `c`. -/
def continuesSymbol (c : Char) : Bool :=
  Text.isAlphabetic c || Text.isNumeric c || c = '_'

/-- Whether `text` has the form of a symbol. -/
def isSymbol (text : List Char) : Bool :=
  match text with
  | [] => false
  | c :: rest => beginsSymbol c && rest.all continuesSymbol

/-- The value of a boolean literal. When both words are the same it is true. -/
def boolean (trueWord falseWord text : String) : Except Error Bool :=
  if text = trueWord then .ok true
  else if text = falseWord then .ok false
  else .error (.notALiteral .boolean text)

end Parlance.Literal
