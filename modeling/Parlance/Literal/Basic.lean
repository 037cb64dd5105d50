import Parlance.Escape

/-!
# Literals

What literals of the different kinds look like is a matter of configuration: the
two boolean words, the quotes of characters and strings, whether they hold escape
sequences, and whether floating numbers may have an exponent. This module holds
those conventions and the ways in which reading the value of a literal can fail.
-/

namespace Parlance.Literal

/-- Conventions for the literals of a language. -/
structure Conventions where
  trueWord : String := "true"
  falseWord : String := "false"
  allowScientific : Bool := true
  allowEscapes : Bool := true
  charOpen : String := "'"
  charClose : String := "'"
  stringOpen : String := "\""
  stringClose : String := "\""
deriving DecidableEq, Repr, Inhabited

/-- The kinds of literal. -/
inductive Kind where
  | boolean
  | character
  | string
  | integer
  | floating
deriving DecidableEq, Repr

/-- The name of a kind in messages. -/
def Kind.name : Kind → String
  | .boolean => "boolean"
  | .character => "character"
  | .string => "string"
  | .integer => "integer"
  | .floating => "floating"

/-- Why the value of a literal cannot be read. -/
inductive Error where
  /-- The text is not a literal of the kind asked for. -/
  | notALiteral (kind : Kind) (text : String)
  /-- The integer needs more than 64 bits. -/
  | integerOverflow (text : String)
  /-- An exponent where none is allowed. -/
  | scientificNotAllowed (text : String)
  /-- A faulty escape sequence. -/
  | escape (error : Escape.Error)
deriving DecidableEq, Repr

/-- The wording of an error. -/
def Error.message : Error → String
  | .notALiteral kind text => s!"'{text}' is not a valid {kind.name} literal"
  | .integerOverflow text => s!"integer literal '{text}' is out of range"
  | .scientificNotAllowed text => s!"scientific notation is not allowed in '{text}'"
  | .escape error => error.message

end Parlance.Literal
