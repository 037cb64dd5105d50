/-!
# Errors of configuration

What can be wrong with the rules, bounds and operators that a language is
described by. These errors concern the description; problems of an input that is
read with it are diagnostics.
-/

namespace Parlance

/-- Which of its two tokens a bound lacks. -/
inductive BoundToken where
  | start
  | closing
deriving DecidableEq, Repr

/-- The name of a bound's token in messages. -/
def BoundToken.name : BoundToken → String
  | .start => "start"
  | .closing => "end"

/-- An invalid description of a language. -/
inductive ConfigError where
  /-- A rule without a start pattern. -/
  | emptyPattern
  /-- Removal of a rule that does not exist. -/
  | unknownDeliminator (start : String)
  /-- A second rule with one start pattern. -/
  | duplicateDeliminator (start : String)
  /-- A bound without one of its tokens. -/
  | emptyBoundToken (name : String) (token : BoundToken)
  /-- A second bound with one start token. -/
  | duplicateBound (start : String)
  /-- A bound whose closing token closes another one already. -/
  | duplicateBoundEnd (name closing other : String)
  /-- A bound that starts and ends with one token. -/
  | selfClosingBound (name token : String)
  /-- A separator for a bound without elements. -/
  | splitWithoutElement (name : String)
  /-- An operator without a name. -/
  | emptyOperator
deriving DecidableEq, Repr

/-- The wording of an error. -/
def ConfigError.message : ConfigError → String
  | .emptyPattern => "cannot deliminate an empty pattern"
  | .unknownDeliminator start => s!"no deliminator rule starts with '{start}'"
  | .duplicateDeliminator start => s!"a deliminator rule already starts with '{start}'"
  | .emptyBoundToken name token => s!"bound '{name}' has an empty {token.name} token"
  | .duplicateBound start => s!"a bound already starts with '{start}'"
  | .duplicateBoundEnd name closing other =>
    s!"end token '{closing}' of bound '{name}' already closes bound '{other}'"
  | .selfClosingBound name token => s!"bound '{name}' starts and ends with '{token}'"
  | .splitWithoutElement name => s!"bound '{name}' declares a split but no element name"
  | .emptyOperator => "operator name cannot be empty"

end Parlance
