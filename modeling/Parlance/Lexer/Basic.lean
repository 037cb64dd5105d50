import Parlance.ConfigError
import Parlance.Definitions
import Parlance.Lexer.Rule
import Parlance.Tagging

/-!
# Lexers

A lexer holds rules for regions under their start patterns, a chain that tags the
text between regions, and definitions of names that stand for tokens. Of several
rules that could begin at a place, the one with the longest start pattern applies.
-/

namespace Parlance

/-- How a text is cut into tokens. -/
structure Lexer where
  rules : Dictionary Rule := .empty
  chain : Chain := .standard {}
  definitions : Definitions (List Token) := .empty

instance : Inhabited Lexer := ⟨{}⟩

namespace Lexer

/-- Add a rule whose regions start with `start`. -/
def deliminate (lexer : Lexer) (start : String) (ending : Ending) : Except ConfigError Lexer :=
  if startNonempty : start.toList = [] then .error .emptyPattern
  else if lexer.rules.contains start then .error (.duplicateDeliminator start)
  else .ok { lexer with rules := lexer.rules.insert start { start, ending, startNonempty } }

/-- The ending given by an optional end pattern, which means nothing when empty. -/
def endingOf : Option String → Ending
  | none => .none
  | some final => if final.isEmpty then .none else .pattern final

/-- Remove the rule whose regions start with `start`. -/
def undeliminate (lexer : Lexer) (start : String) : Except ConfigError (Rule × Lexer) :=
  if start.isEmpty then .error .emptyPattern
  else match lexer.rules.find? start with
    | none => .error (.unknownDeliminator start)
    | some rule => .ok (rule, { lexer with rules := lexer.rules.erase start })

/-- The rule whose regions start with `start`. -/
def rule? (lexer : Lexer) (start : String) : Option Rule := lexer.rules.find? start

/-- Change the rule whose regions start with `start`, if there is one. -/
def changeRule (lexer : Lexer) (start : String) (change : Rule → Rule) : Lexer :=
  match lexer.rules.find? start with
  | none => lexer
  | some rule => { lexer with rules := lexer.rules.insert start (change rule) }

/-- The number of rules. -/
def ruleCount (lexer : Lexer) : Nat := lexer.rules.size

/-- The number of bytes of the longest start pattern, zero without rules. -/
def longestStart (lexer : Lexer) : Nat :=
  (lexer.rules.keys.map (fun start => start.utf8ByteSize)).foldl max 0

/-- The rule with the longest start pattern among those whose pattern `text` begins
with. -/
def longestOf (text : List Char) : List Rule → Option Rule
  | [] => none
  | rule :: rules =>
    let best := longestOf text rules
    if rule.start.toList.isPrefixOf text then
      match best with
      | none => some rule
      | some other => if rule.start.length < other.start.length then some other else some rule
    else best

/-- The rule that applies at the start of `text`. -/
def matchAt (lexer : Lexer) (text : List Char) : Option Rule :=
  longestOf text lexer.rules.values

end Lexer

end Parlance
