import Parlance.Expression.Stack

/-!
# From runs to expressions

The children of a branch form a run of operands and operators. A leaf is an
operator, a value, or out of place. A branch of the wrapper's name is a group,
which must hold exactly one element with contents; directly behind a symbol it is
the argument list of a call. Groups and arguments are runs of their own, up to the
limit on nesting. Every part is then worked off on the stack of its run.
-/

namespace Parlance.Expressions

mutual

/-- The steps of a run at the given depth, before which `seen` was the token seen
last. -/
def steps (expressions : Expressions) (depth : Nat) (seen : Option Token) (run : List Tree) :
    List Step :=
  match run with
  | [] => []
  | .leaf token :: rest =>
    let here := some token
    match expressions.classify token with
    | .operator operator =>
      { part := .operator token operator, seen := here } ::
        steps expressions depth here rest
    | .literal =>
      { part := .operand (.leaf token), seen := here } :: steps expressions depth here rest
    | .other =>
      { part := .nothing, seen := here
        diagnostics := [Problem.unexpectedToken.diagnose token] } ::
          steps expressions depth here rest
    | .symbol =>
      match rest with
      | .branch name elements :: others =>
        if name = expressions.names.expression then
          let place := site (.branch name elements) here
          let call := if expressions.maxDepth ≤ depth then
              { value := Tree.empty
                diagnostics := [(Problem.nestingTooDeep expressions.maxDepth).diagnose place] }
            else if (elements.map Tree.isChildless) = [true] then
              { value := .branch expressions.names.call [.leaf token] }
            else
              let given := arguments expressions depth place elements
              { value := .branch expressions.names.call (.leaf token :: given.value)
                diagnostics := given.diagnostics : Reported Tree }
          { part := .operand call.value, seen := here, diagnostics := call.diagnostics } ::
            steps expressions depth here others
        else
          { part := .operand (.leaf token), seen := here } ::
            steps expressions depth here (.branch name elements :: others)
      | rest =>
        { part := .operand (.leaf token), seen := here } :: steps expressions depth here rest
  | .branch name elements :: rest =>
    let here := (Tree.branch name elements).lastToken?.or seen
    let place := site (.branch name elements) seen
    if name = expressions.names.expression then
      let group : Reported Tree := match elements with
        | [.branch inner contents] =>
          if inner = expressions.names.element && !contents.isEmpty then
            if expressions.maxDepth ≤ depth then
              { value := .empty
                diagnostics := [(Problem.nestingTooDeep expressions.maxDepth).diagnose place] }
            else
              expressions.assemble (some place)
                (steps expressions (depth + 1) (some place) contents)
          else { value := .empty, diagnostics := [Problem.expectedExpression.diagnose place] }
        | [_] => { value := .empty, diagnostics := [Problem.expectedExpression.diagnose place] }
        | _ => { value := .empty, diagnostics := [Problem.unexpectedArgumentList.diagnose place] }
      { part := .operand group.value, seen := here, diagnostics := group.diagnostics } ::
        steps expressions depth here rest
    else
      { part := .nothing, seen := here
        diagnostics := [Problem.unexpectedToken.diagnose place] } ::
          steps expressions depth here rest
termination_by Tree.sizeAll run
decreasing_by all_goals simp only [Tree.sizeAll, Tree.size]; omega

/-- The arguments of a call. An element that is none, or has no contents, is
reported and left out; an argument that comes to nothing is left out. -/
def arguments (expressions : Expressions) (depth : Nat) (place : Token) (elements : List Tree) :
    Reported (List Tree) :=
  match elements with
  | [] => { value := [] }
  | .branch name contents :: rest =>
    let others := arguments expressions depth place rest
    if name = expressions.names.element && !contents.isEmpty then
      let argument := expressions.assemble (some place)
        (steps expressions (depth + 1) (some place) contents)
      { value :=
          if argument.value.isEmpty then others.value else argument.value :: others.value
        diagnostics := argument.diagnostics ++ others.diagnostics }
    else
      { value := others.value
        diagnostics := Problem.expectedExpression.diagnose place :: others.diagnostics }
  | .leaf _ :: rest =>
    let others := arguments expressions depth place rest
    { value := others.value
      diagnostics := Problem.expectedExpression.diagnose place :: others.diagnostics }
termination_by Tree.sizeAll elements
decreasing_by all_goals simp only [Tree.sizeAll, Tree.size]; omega

end

/-- The expression that the children of a tree form; a leaf is a run of itself. -/
def resolve (expressions : Expressions) (tree : Tree) : Reported Tree :=
  let run := match tree with
    | .leaf token => [Tree.leaf token]
    | .branch _ children => children
  expressions.assemble none (expressions.steps 0 none run)

end Parlance.Expressions
