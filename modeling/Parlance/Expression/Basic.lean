import Parlance.ConfigError
import Parlance.Dictionary
import Parlance.Tagging
import Parlance.Tree.Walk

/-!
# Operators and the names of expressions

How runs of operands and operators become expressions is described by the
declared operators, each with the side of its operands and a precedence, by the
names of the branches that are read and made, by the chain that says which leaves
are values, and by a limit on nested groups.
-/

namespace Parlance

/-- Where an operator takes its operands from. -/
inductive Arity where
  /-- From both sides. -/
  | binary
  /-- From the left. -/
  | unaryLeft
  /-- From the right. -/
  | unaryRight
  /-- From the left behind an operand, and from the right otherwise. -/
  | unaryBoth
deriving DecidableEq, Repr

namespace Arity

/-- The name of an arity in documents. -/
def name : Arity → String
  | .binary => "binary"
  | .unaryLeft => "unaryLeft"
  | .unaryRight => "unaryRight"
  | .unaryBoth => "unaryBoth"

/-- The arity with the given name. -/
def ofName? (name : String) : Option Arity :=
  [Arity.binary, .unaryLeft, .unaryRight, .unaryBoth].find? (fun arity => arity.name = name)

end Arity

/-- A declared operator; a larger precedence binds tighter. -/
structure Operator where
  arity : Arity
  precedence : Int
deriving DecidableEq, Repr

/-- The names of the branches that expressions are read from and made of. -/
structure NodeNames where
  /-- Groups in parentheses and argument lists. -/
  expression : String := "expression"
  /-- The parts of a group. -/
  element : String := "argument"
  /-- A callee with its arguments. -/
  call : String := "call"
  /-- An operand with an operator behind it. -/
  unaryLeft : String := "unary_left"
  /-- An operator with an operand behind it. -/
  unaryRight : String := "unary_right"
  /-- An operator between two operands. -/
  binary : String := "binary"
deriving DecidableEq, Repr, Inhabited

/-- The limit on nested groups and argument lists where none is given. -/
def defaultMaxDepth : Nat := 256

/-- The smallest precedence. -/
def minPrecedence : Int := -2147483648

/-- The largest precedence. -/
def maxPrecedence : Int := 2147483647

/-- How runs of operands and operators become expressions. -/
structure Expressions where
  names : NodeNames := {}
  operators : Dictionary Operator := .empty
  /-- The precedence of the next operator that is declared without one. -/
  nextPrecedence : Int := 0
  chain : Chain := .standard {}
  maxDepth : Nat := defaultMaxDepth

instance : Inhabited Expressions := ⟨{}⟩

namespace Expressions

/-- Declare an operator. Without a precedence it gets one above all that were given
before, as long as there is one. -/
def addOperator (expressions : Expressions) (operator : String) (arity : Arity)
    (precedence : Option Int) : Except ConfigError Expressions :=
  if operator.isEmpty then .error .emptyOperator
  else
    let precedence := precedence.getD expressions.nextPrecedence
    .ok { expressions with
      nextPrecedence := max expressions.nextPrecedence (min (precedence + 1) maxPrecedence)
      operators := expressions.operators.insert operator { arity, precedence } }

/-- The declaration of an operator. -/
def operator? (expressions : Expressions) (operator : String) : Option Operator :=
  expressions.operators.find? operator

/-- What a leaf is in a run. -/
inductive Kind where
  | operator (operator : Operator)
  | literal
  | symbol
  | other
deriving DecidableEq, Repr

/-- What the leaf of a token is in a run. Deliminators and tokens put in by
definitions are classified again by the chain. -/
def classify (expressions : Expressions) (token : Token) : Kind :=
  match expressions.operators.find? token.value with
  | some operator => .operator operator
  | none =>
    let tag := match token.tag with
      | .deliminator | .synthetic => expressions.chain.classify token.value
      | tag => tag
    if tag = .symbol then .symbol else if tag.isLiteral then .literal else .other

end Expressions

end Parlance
