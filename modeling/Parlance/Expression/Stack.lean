import Parlance.Diagnostic.Catalogue
import Parlance.Expression.Basic

/-!
# The stack of a run

A run is worked off with a stack of operands and of operators that wait for their
right operand. An operand remembers how many nodes at the top of its right spine
were made in this run by binary and prefix operators. An operator that takes the
operand goes down these nodes as long as they bind more loosely than it does, and
takes what it finds there; it never enters anything that was complete before.
Equal precedences do not go down, so they group to the left.
-/

namespace Parlance.Expressions

/-- An entry of the stack. -/
inductive Item where
  /-- An operand, with the number of nodes on its right spine that are open. -/
  | operand (tree : Tree) (spine : Nat)
  /-- An operator that waits for its right operand. -/
  | pending (leaf : Token) (operator : Operator)

/-- The precedence of a binary or prefix node, read off its name and operator. -/
def spinePrecedence? (expressions : Expressions) : Tree → Option Int
  | .leaf _ => none
  | .branch name children =>
    let operator :=
      if name = expressions.names.binary then children[1]?
      else if name = expressions.names.unaryRight then children[0]?
      else none
    ((operator.bind (·.value?)).bind expressions.operators.find?).map (·.precedence)

/-- Go down at most `spine` nodes of the right spine while they bind more loosely
than `precedence`, and replace the node reached by `make` of it. Gives the tree and
the number of nodes gone down. -/
def graft (expressions : Expressions) (precedence : Int) (make : Tree → Tree) :
    Nat → Tree → Tree × Nat
  | 0, tree => (make tree, 0)
  | spine + 1, tree =>
    match expressions.spinePrecedence? tree, tree with
    | some held, .branch name children =>
      match children.getLast? with
      | some last =>
        if held < precedence then
          let (inner, depth) := graft expressions precedence make spine last
          (.branch name (children.dropLast ++ [inner]), depth + 1)
        else (make tree, 0)
      | none => (make tree, 0)
    | _, _ => (make tree, 0)

/-- Put an operator on the stack, or apply it at once when it takes the operand
before it. -/
def pushOperator (expressions : Expressions) (stack : List Item) (leaf : Token)
    (operator : Operator) : Reported (List Item) :=
  match operator.arity, stack with
  | .binary, _ => { value := .pending leaf operator :: stack }
  | .unaryRight, _ => { value := .pending leaf operator :: stack }
  | _, .operand tree spine :: rest =>
    let (grafted, depth) := expressions.graft operator.precedence
      (fun operand => .branch expressions.names.unaryLeft [operand, .leaf leaf]) spine tree
    { value := .operand grafted depth :: rest }
  | .unaryBoth, _ => { value := .pending leaf operator :: stack }
  | .unaryLeft, _ =>
    { value := stack, diagnostics := [Problem.missingLeftOperand.diagnose leaf] }

/-- Give an operand to the operators that wait for it, and put the result on the
stack. Prefix operators take it one after the other; a binary operator takes it
together with the operand below, and is dropped when there is none. -/
def pushOperand (expressions : Expressions) :
    List Item → Tree → Nat → Reported (List Item)
  | .pending leaf operator :: rest, tree, spine =>
    if operator.arity = .binary then
      match rest with
      | .operand left leftSpine :: below =>
        let (grafted, depth) := expressions.graft operator.precedence
          (fun operand => .branch expressions.names.binary [operand, .leaf leaf, tree])
          leftSpine left
        { value := .operand grafted (depth + 1 + spine) :: below }
      | _ =>
        let settled := pushOperand expressions rest tree spine
        { value := settled.value
          diagnostics := Problem.missingLeftOperand.diagnose leaf :: settled.diagnostics }
    else
      pushOperand expressions rest
        (.branch expressions.names.unaryRight [.leaf leaf, tree]) (spine + 1)
  | stack, tree, spine => { value := .operand tree spine :: stack }

/-- The token that a diagnostic about `tree` points at: its last one, else the one
seen last, else none in particular. -/
def site (tree : Tree) (seen : Option Token) : Token := (tree.lastToken?.or seen).getD {}

/-- The tree of a run that is worked off: the only operand of the stack. -/
def finish (stack : List Item) (seen : Option Token) : Reported Tree :=
  match stack with
  | [] => { value := .empty }
  | [.operand tree _] => { value := tree }
  | .pending leaf _ :: _ =>
    { value := .empty, diagnostics := [Problem.operatorAsOperand.diagnose leaf] }
  | .operand tree _ :: _ =>
    { value := .empty
      diagnostics := [Problem.unexpectedArgumentList.diagnose (site tree seen)] }

/-- What a child of a run contributes to the stack. -/
inductive Part where
  | operator (leaf : Token) (operator : Operator)
  | operand (tree : Tree)
  | nothing

/-- A part of a run, with what was reported about it and the token seen last. -/
structure Step where
  part : Part
  seen : Option Token
  diagnostics : List Diagnostic := []

/-- A run that is being worked off. -/
structure Working where
  stack : List Item := []
  seen : Option Token
  diagnostics : List Diagnostic := []

/-- Work off one step. -/
def work (expressions : Expressions) (working : Working) (step : Step) : Working :=
  let pushed : Reported (List Item) := match step.part with
    | .operator leaf operator => expressions.pushOperator working.stack leaf operator
    | .operand tree => expressions.pushOperand working.stack tree 0
    | .nothing => { value := working.stack }
  { stack := pushed.value
    seen := step.seen
    diagnostics := working.diagnostics ++ step.diagnostics ++ pushed.diagnostics }

/-- The tree of a run given by its steps; `seen` is the token seen before it. -/
def assemble (expressions : Expressions) (seen : Option Token) (steps : List Step) :
    Reported Tree :=
  let worked := steps.foldl expressions.work { seen }
  let finished := finish worked.stack worked.seen
  { value := finished.value, diagnostics := worked.diagnostics ++ finished.diagnostics }

end Parlance.Expressions
