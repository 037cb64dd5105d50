import Parlance.Diagnostic.Basic
import Parlance.Diagnostic.Template

/-!
# The catalogue of diagnostics

Every problem the passes can find has an entry here: its code, its severity, an
explanation for readers who ask, and the template of its message. Codes from 1000
belong to the structure of brackets, from 2000 to expressions, from 3000 to
definitions of names.
-/

namespace Parlance

/-- What is known about a code. -/
structure Entry where
  id : String
  severity : Severity
  explanation : String
  template : String
deriving Repr

/-- All entries, in the order of their codes. -/
def catalogue : List Entry := [
  { id := "FK1001", severity := .error
    explanation := "A token matched the end token of a declared bound, but a different bound is currently open. The token is dropped and parsing continues; check for a missing or extra closing bracket."
    template := "mismatched structure bounds between '\x7bstart\x7d' and '\x7bend\x7d'" },
  { id := "FK1002", severity := .error
    explanation := "Input ended while a bound opened by its start token was never closed by its end token. One diagnostic is reported per unclosed bound, innermost first."
    template := "incomplete structure bound started with '\x7bstart\x7d', but not completed with '\x7bend\x7d'" },
  { id := "FK2001", severity := .error
    explanation := "A parenthesized group must contain exactly one element, and an expression must reduce to exactly one value. Separators inside a plain group, or two operands with no operator between them, produce this error."
    template := "unexpected argument list - only one element required" },
  { id := "FK2002", severity := .error
    explanation := "An empty group, an empty call argument between separators, or a group whose contents are not an element of the expression wrapper leaves nothing to evaluate."
    template := "expected expression here" },
  { id := "FK2003", severity := .error
    explanation := "Binary operators and postfix (left-only unary) operators must follow a value. The operator is discarded and parsing continues with the operand that follows it."
    template := "operator '\x7boperator\x7d' requires left operand" },
  { id := "FK2004", severity := .error
    explanation := "Only literals, symbols, calls, groups, and declared operators may appear in an expression region. Separators, unknown punctuation, and non-expression bounds are rejected."
    template := "unexpected token '\x7bvalue\x7d' in expression" },
  { id := "FK2005", severity := .error
    explanation := "The expression ended with an operator still waiting for its operand, so there is nothing for the operator to act on."
    template := "cannot operate on an operator" },
  { id := "FK2006", severity := .error
    explanation := "The expression rewriter recurses once per nested group or call argument. Beyond the configured limit the nested region is replaced by an empty operand instead of exhausting the stack."
    template := "expression nesting exceeds the limit of \x7blimit\x7d levels" },
  { id := "FK3001", severity := .warn
    explanation := "Defining a macro whose name is already defined replaces the earlier body. Undefine the macro first if the redefinition is intentional."
    template := "macro definition shadows existing definition of '\x7bname\x7d'" },
  { id := "FK3002", severity := .error
    explanation := "A token marked as a macro use does not match any defined macro. The token is kept unchanged in the output."
    template := "use of undefined macro '\x7bname\x7d'" }]

namespace Entry

/-- The entry of a code. -/
def find? (id : String) : Option Entry := catalogue.find? (fun entry => entry.id = id)

end Entry

/-- The explanation of a code. -/
def explanation? (id : String) : Option String := (Entry.find? id).map (·.explanation)

/-- The severity of a code. -/
def severity? (id : String) : Option Severity := (Entry.find? id).map (·.severity)

/-- The message template of a code; every code has the one variant `default`. -/
def template? (id variant : String) : Option String :=
  if variant = "default" then (Entry.find? id).map (·.template) else none

namespace Diagnostic

/-- The diagnostic for a code with its message filled from the context. An unknown
code gives an error whose message is the code itself. -/
def catalogued (id : String) (context : Dictionary String) : Diagnostic where
  id := id
  severity := (severity? id).getD .error
  message := match template? id "default" with
    | some template => Template.fill template context
    | none => id
  context := if context.entries.isEmpty then none else some context

end Diagnostic

/-- What the passes can find wrong with an input. -/
inductive Problem where
  /-- A closing token of a bound other than the innermost open one. -/
  | mismatchedBounds (opening closing : String)
  /-- A bound still open at the end of the input. -/
  | incompleteBound (opening closing : String)
  /-- A group or expression with more than one value. -/
  | unexpectedArgumentList
  /-- No expression where one is required. -/
  | expectedExpression
  /-- A binary or postfix operator with nothing on its left. -/
  | missingLeftOperand
  /-- A token that is neither a value nor an operator. -/
  | unexpectedToken
  /-- An operator still waiting for its operand at the end. -/
  | operatorAsOperand
  /-- Groups nested beyond the limit. -/
  | nestingTooDeep (limit : Nat)
  /-- A definition that replaced an earlier one. -/
  | shadowedDefinition (name : String)
  /-- A use of a name without definition. -/
  | undefinedName (name : String)
deriving DecidableEq, Repr

namespace Problem

/-- The code of a problem. -/
def code : Problem → String
  | .mismatchedBounds .. => "FK1001"
  | .incompleteBound .. => "FK1002"
  | .unexpectedArgumentList => "FK2001"
  | .expectedExpression => "FK2002"
  | .missingLeftOperand => "FK2003"
  | .unexpectedToken => "FK2004"
  | .operatorAsOperand => "FK2005"
  | .nestingTooDeep _ => "FK2006"
  | .shadowedDefinition _ => "FK3001"
  | .undefinedName _ => "FK3002"

/-- The context of a problem with the token of the given text. -/
def context (value : String) : Problem → List (String × String)
  | .mismatchedBounds opening closing => [("start", opening), ("end", closing)]
  | .incompleteBound opening closing => [("start", opening), ("end", closing)]
  | .missingLeftOperand => [("operator", value)]
  | .unexpectedToken => [("value", value)]
  | .operatorAsOperand => [("operator", value)]
  | .nestingTooDeep limit => [("limit", toString limit)]
  | .shadowedDefinition name => [("name", name)]
  | .undefinedName name => [("name", name)]
  | _ => []

/-- The diagnostic for a problem with `token`: the catalogued one, with the token's
text in the context, and at the token's place. -/
def diagnose (problem : Problem) (token : Token) : Diagnostic :=
  { Diagnostic.catalogued problem.code
      (Dictionary.ofList (problem.context token.value ++ [("token", token.value)])) with
    span := some token.span
    location := some token.location }

end Problem

end Parlance
