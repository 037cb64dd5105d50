import Parlance.Expression.Resolve
import Parlance.Grammar.Spec
import Parlance.Lexer.Scan
import Parlance.Nesting.Build

/-!
# Grammars

A grammar is what a document describes, ready for use: a lexer, a nesting, and,
where the document asks for it, the resolution of expressions in certain branches,
its regions. A text goes through the three in turn; expressions are only resolved
when the nesting was free of errors.
-/

namespace Parlance

/-- A described language, ready for use. -/
structure Grammar where
  lexer : Lexer
  nesting : Nesting
  expressions : Option Expressions
  /-- The names of the branches that hold expressions. -/
  regions : List String

namespace Grammar

/-- Add a described rule. -/
def addRule (lexer : Lexer) (spec : RuleSpec) : Except ConfigError Lexer := do
  let extended ← lexer.deliminate spec.start (Lexer.endingOf spec.ending)
  return extended.changeRule spec.start fun rule =>
    { rule with escape := spec.escape, filtered := spec.filtered }

/-- Add a described bound. -/
def addBound (nesting : Nesting) (spec : BoundSpec) : Except ConfigError Nesting := do
  let extended ← nesting.bind spec.name spec.start spec.closing (spec.element.getD "") spec.split
  return extended.setFlag spec.start spec.endIsParentSplit

/-- Add a described operator. -/
def addOperator (expressions : Expressions) (spec : OperatorSpec) :
    Except ConfigError Expressions :=
  expressions.addOperator spec.operator spec.arity spec.precedence

/-- The tokens that a described definition stands for. -/
def definitionBody (chain : Chain) (words : List String) : List Token :=
  words.map fun word => .bare word (chain.classify word)

/-- The lexer before any rules, with the described definitions. -/
def baseLexer (spec : Spec) : Lexer :=
  let chain := Chain.standard spec.literals
  { chain
    definitions := spec.definitions.entries.foldl
      (fun definitions entry => definitions.insert entry.1 (definitionBody chain entry.2)) .empty }

/-- The nesting before any bounds, with the described root. -/
def baseNesting (root : RootSpec) : Except ConfigError Nesting := do
  let named := Nesting.setRootName {} root.name
  let grouped ← named.setRootSplit (root.element.getD "") root.split
  return grouped.setRootFlag root.endIsParentSplit

/-- The resolution of expressions before any operators. -/
def baseExpressions (literals : Literal.Conventions) (spec : ExpressionSpec) : Expressions :=
  { names := spec.names, chain := .standard literals, maxDepth := spec.maxDepth }

/-- The names of the branches that hold expressions. -/
def regionsOf (root : RootSpec) (spec : ExpressionSpec) : List String :=
  if spec.regions.isEmpty then [root.element.getD root.name] else spec.regions

/-- The grammar that a document describes. -/
def ofSpec (spec : Spec) : Except ConfigError Grammar := do
  let lexer ← spec.rules.foldlM addRule (baseLexer spec)
  let nesting ← spec.bounds.foldlM addBound (← baseNesting spec.root)
  match spec.expression with
  | none => return { lexer, nesting, expressions := none, regions := [] }
  | some expression =>
    let expressions ←
      expression.operators.foldlM addOperator (baseExpressions spec.literals expression)
    return { lexer, nesting, expressions := some expressions
             regions := regionsOf spec.root expression }

/-- Why a text describes no grammar. -/
inductive Error where
  | document (error : Spec.Error)
  | config (error : ConfigError)
deriving DecidableEq, Repr

/-- The grammar that the text of a document describes. -/
def ofText (text : String) : Except Error Grammar :=
  match Spec.ofText text with
  | .error error => .error (.document error)
  | .ok spec => match ofSpec spec with
    | .error error => .error (.config error)
    | .ok grammar => .ok grammar

/-! ## Resolving regions -/

/-- A tree with its regions resolved, and the expressions that were found, in the
order of the text. -/
structure Resolution where
  tree : Tree
  regions : List (Reported Tree)

/-- What was reported about the regions. -/
def Resolution.diagnostics (resolution : Resolution) : List Diagnostic :=
  resolution.regions.flatMap (·.diagnostics)

/-- What is still to be done while regions are resolved. -/
inductive Task where
  /-- Look at a tree. -/
  | visit (tree : Tree)
  /-- Make a branch of the given number of trees made last. -/
  | close (name : String) (count : Nat)

/-- The work left in a task. -/
def Task.work : Task → Nat
  | .visit tree => 2 * tree.size
  | .close .. => 1

/-- The work left in several tasks. -/
def Task.workOf : List Task → Nat
  | [] => 0
  | task :: rest => task.work + Task.workOf rest

/-- The work of two lists of tasks adds up. -/
theorem Task.workOf_append (left right : List Task) :
    Task.workOf (left ++ right) = Task.workOf left + Task.workOf right := by
  induction left with
  | nil => simp [Task.workOf]
  | cons task rest inductionHypothesis =>
    simp only [List.cons_append, Task.workOf, inductionHypothesis]
    omega

/-- The tasks to look at several trees. -/
def Task.visits (trees : List Tree) : List Task := trees.map .visit

/-- Looking at trees is twice their nodes. -/
theorem Task.workOf_visits (trees : List Tree) :
    Task.workOf (Task.visits trees) = 2 * Tree.sizeAll trees := by
  induction trees with
  | nil => rfl
  | cons tree trees inductionHypothesis =>
    simp only [Task.visits, List.map_cons, Task.workOf, Task.work, Tree.sizeAll] at *
    omega

/-- The branch of a region with its expression, or without contents when there is
none. -/
def regionNode (name : String) (expression : Tree) : Tree :=
  .branch name (if expression.isEmpty then [] else [expression])

/-- Carry out the tasks. `made` holds the trees made so far and `found` the
expressions, both newest first. -/
def carryOut (expressions : Expressions) (regions : List String) (made : List Tree)
    (found : List (Reported Tree)) : List Task → List Tree × List (Reported Tree)
  | [] => (made, found)
  | .visit (.leaf token) :: rest =>
    carryOut expressions regions (.leaf token :: made) found rest
  | .visit (.branch name children) :: rest =>
    if regions.contains name then
      let expression := expressions.resolve (.branch name children)
      carryOut expressions regions (regionNode name expression.value :: made)
        (expression :: found) rest
    else
      carryOut expressions regions made found
        (Task.visits children ++ .close name children.length :: rest)
  | .close name count :: rest =>
    carryOut expressions regions
      (.branch name (made.take count).reverse :: made.drop count) found rest
termination_by tasks => Task.workOf tasks
decreasing_by
  · simp only [Task.workOf, Task.work, Tree.size]; omega
  · simp only [Task.workOf, Task.work, Tree.size]; omega
  · simp only [Task.workOf_append, Task.workOf, Task.workOf_visits, Task.work, Tree.size]
    omega
  · simp only [Task.workOf, Task.work]; omega

/-- Resolve the expressions of all regions of a tree. Regions inside of regions are
part of the expression. -/
def resolveRegions (grammar : Grammar) (tree : Tree) : Resolution :=
  match grammar.expressions with
  | none => { tree, regions := [] }
  | some expressions =>
    let (made, found) := carryOut expressions grammar.regions [] [] [.visit tree]
    { tree := made.headD .empty, regions := found.reverse }

/-! ## Running a grammar -/

/-- The tokens of a text. -/
def lex (grammar : Grammar) (text file : String) : List Token := grammar.lexer.lex text file

/-- What became of a text: its tokens, the tree built from them, and the tree with
its expressions resolved, absent when the building found errors. -/
structure Run where
  tokens : List Token
  built : Reported Tree
  resolution : Option Resolution

namespace Run

/-- The tree of a run. -/
def tree (run : Run) : Tree :=
  match run.resolution with
  | some resolution => resolution.tree
  | none => run.built.value

/-- What was reported in a run. -/
def diagnostics (run : Run) : List Diagnostic :=
  run.built.diagnostics ++ match run.resolution with
    | some resolution => resolution.diagnostics
    | none => []

end Run

/-- The tree built from a text, with its tokens. -/
def buildTree (grammar : Grammar) (text file : String) : List Token × Reported Tree :=
  let tokens := grammar.lex text file
  (tokens, grammar.nesting.build tokens)

/-- Cut a text into tokens, build its tree, and resolve its expressions unless the
building found errors. -/
def run (grammar : Grammar) (text file : String) : Run :=
  let (tokens, built) := grammar.buildTree text file
  { tokens, built
    resolution :=
      if built.diagnostics.any (·.isError) then none
      else some (grammar.resolveRegions built.value) }

end Grammar

end Parlance
