import Parlance.Expression.Basic
import Parlance.Json.Comments
import Parlance.Json.Decoder

/-!
# Grammar documents

A grammar document describes a language: rules for regions, definitions of names,
the root and the bounds of its nesting, operators, and conventions for literals.
It is JSON with comments. Every part may be left out except the text and the arity
of an operator.
-/

namespace Parlance

open Json

/-- A rule for regions. -/
structure RuleSpec where
  start : String := ""
  ending : Option String := none
  escape : Option Char := none
  filtered : Bool := false
deriving DecidableEq, Repr, Inhabited

/-- The root of the nesting. -/
structure RootSpec where
  name : String := "global"
  element : Option String := none
  split : Option String := none
  endIsParentSplit : Bool := false
deriving DecidableEq, Repr, Inhabited

/-- A bound. -/
structure BoundSpec where
  name : String := ""
  start : String := ""
  closing : String := ""
  element : Option String := none
  split : Option String := none
  endIsParentSplit : Bool := false
deriving DecidableEq, Repr, Inhabited

/-- An operator. -/
structure OperatorSpec where
  operator : String
  arity : Arity
  precedence : Option Int := none
deriving DecidableEq, Repr

/-- How expressions are resolved. -/
structure ExpressionSpec where
  names : NodeNames := {}
  /-- The branches that hold expressions; when there are none, the elements of the
  root, or the root itself without an element level. -/
  regions : List String := []
  operators : List OperatorSpec := []
  maxDepth : Nat := defaultMaxDepth
deriving DecidableEq, Repr, Inhabited

/-- A grammar document. -/
structure Spec where
  rules : List RuleSpec := []
  definitions : Dictionary (List String) := .empty
  root : RootSpec := {}
  bounds : List BoundSpec := []
  /-- Absent when trees stay as they are built. -/
  expression : Option ExpressionSpec := none
  literals : Literal.Conventions := {}
deriving DecidableEq, Inhabited

namespace Spec

/-- Read a rule. -/
def decodeRule : Document → Decoded RuleSpec :=
  Document.asRecord [
    .plain "start" (·.asText) fun rule start => { rule with start },
    .plain "end" (·.asOption (·.asText)) fun rule ending => { rule with ending },
    .plain "escape" (·.asOption (·.asCharacter)) fun rule escape => { rule with escape },
    .plain "filtered" (·.asBoolean) fun rule filtered => { rule with filtered }] [] {}

/-- Read the root. -/
def decodeRoot : Document → Decoded RootSpec :=
  Document.asRecord [
    .plain "name" (·.asText) fun root name => { root with name },
    .plain "element" (·.asOption (·.asText)) fun root element => { root with element },
    .plain "split" (·.asOption (·.asText)) fun root split => { root with split },
    .plain "endIsParentSplit" (·.asBoolean) fun root endIsParentSplit =>
      { root with endIsParentSplit }] [] {}

/-- Read a bound. -/
def decodeBound : Document → Decoded BoundSpec :=
  Document.asRecord [
    .plain "name" (·.asText) fun bound name => { bound with name },
    .plain "start" (·.asText) fun bound start => { bound with start },
    .plain "end" (·.asText) fun bound closing => { bound with closing },
    .plain "element" (·.asOption (·.asText)) fun bound element => { bound with element },
    .plain "split" (·.asOption (·.asText)) fun bound split => { bound with split },
    .plain "endIsParentSplit" (·.asBoolean) fun bound endIsParentSplit =>
      { bound with endIsParentSplit }] [] {}

/-- The arity of the given name. -/
def arityNamed (name : String) : Decoded Arity :=
  match Arity.ofName? name with
  | some arity => .ok arity
  | none => .error .shape

/-- Read an arity: its name, or an object whose only key is its name and holds
nothing. Nothing else can begin an arity, so anything else is met as a fault. -/
def decodeArity (misfit : Fault) : Document → Decoded Arity
  | .text name => arityNamed name
  | .object (.stop ending) => .error (.fault (ending.next.getD ending.other))
  | .object (.stray _ value) => value.refuse
  | .object (.member _ key _ value more) => do
    let arity ← arityNamed (← key.asText)
    match value with
    | .null => pure ()
    | other => other.refuse
    match more with
    | .stop ending => if ending.next.isSome then throw (.fault ending.other) else return arity
    | .stray fault _ => throw (.fault fault)
    | .member surplus .. => throw (.fault surplus)
  | .unusable reading _ => .error (.fault reading)
  | _ => .error (.fault misfit)

/-- Read an operator. -/
def decodeOperator (document : Document) : Decoded OperatorSpec := do
  let drafted ← document.asRecord [
    .plain "operator" (·.asText) fun (draft : OperatorSpec) operator => { draft with operator },
    ⟨"arity", fun draft misfit document =>
      (decodeArity misfit document).map fun arity => { draft with arity }⟩,
    .plain "precedence" (·.asOption (·.asInteger minPrecedence maxPrecedence))
      fun draft precedence => { draft with precedence }]
    ["operator", "arity"] { operator := "", arity := .binary }
  return drafted

/-- Read the names of branches. -/
def decodeNames : Document → Decoded NodeNames :=
  Document.asRecord [
    .plain "expression" (·.asText) fun names expression => { names with expression },
    .plain "element" (·.asText) fun names element => { names with element },
    .plain "call" (·.asText) fun names call => { names with call },
    .plain "unaryLeft" (·.asText) fun names unaryLeft => { names with unaryLeft },
    .plain "unaryRight" (·.asText) fun names unaryRight => { names with unaryRight },
    .plain "binary" (·.asText) fun names binary => { names with binary }] [] {}

/-- Read how expressions are resolved. -/
def decodeExpression : Document → Decoded ExpressionSpec :=
  Document.asRecord [
    .plain "names" decodeNames fun spec names => { spec with names },
    .plain "regions" (·.asList (·.asText)) fun spec regions => { spec with regions },
    .plain "operators" (·.asList decodeOperator) fun spec operators => { spec with operators },
    .plain "maxDepth" (·.asInteger 0 greatestWord) fun spec maxDepth =>
      { spec with maxDepth := maxDepth.toNat }] [] {}

/-- Read conventions for literals. -/
def decodeLiterals : Document → Decoded Literal.Conventions :=
  Document.asRecord [
    .plain "trueWord" (·.asText) fun literals trueWord => { literals with trueWord },
    .plain "falseWord" (·.asText) fun literals falseWord => { literals with falseWord },
    .plain "allowScientific" (·.asBoolean) fun literals allowScientific =>
      { literals with allowScientific },
    .plain "allowEscapes" (·.asBoolean) fun literals allowEscapes =>
      { literals with allowEscapes },
    .plain "charOpen" (·.asText) fun literals charOpen => { literals with charOpen },
    .plain "charClose" (·.asText) fun literals charClose => { literals with charClose },
    .plain "stringOpen" (·.asText) fun literals stringOpen => { literals with stringOpen },
    .plain "stringClose" (·.asText) fun literals stringClose =>
      { literals with stringClose }] [] {}

/-- Read a grammar document. -/
def decode : Document → Decoded Spec :=
  Document.asRecord [
    .plain "deliminators" (·.asList decodeRule) fun spec rules => { spec with rules },
    .plain "macros" (·.asDictionary (·.asList (·.asText))) fun spec definitions =>
      { spec with definitions },
    .plain "global" decodeRoot fun spec root => { spec with root },
    .plain "bounds" (·.asList decodeBound) fun spec bounds => { spec with bounds },
    .plain "expression" (·.asOption decodeExpression) fun spec expression =>
      { spec with expression },
    .plain "literals" decodeLiterals fun spec literals => { spec with literals }] [] {}

/-- Why a text is not a grammar document: its shape, or a fault with its line. -/
inductive Error where
  | shape
  | fault (lapse : Lapse) (line : Nat)
deriving DecidableEq, Repr

/-- The wording of an error. -/
def Error.message : Error → String
  | .shape => "a value has an unexpected shape"
  | .fault .malformed line => s!"unexpected text on line {line}"
  | .fault .truncated line => s!"unexpected end of text on line {line}"

/-- Read a grammar document from a text with comments. Lines are those of the text
without its comments, which are the same. -/
def ofText (text : String) : Except Error Spec :=
  let plain := Json.plain text.toList
  match decodeText decode plain with
  | .ok spec => .ok spec
  | .error .shape => .error .shape
  | .error (.fault fault) => .error (.fault fault.lapse (fault.line plain))

end Spec

end Parlance
