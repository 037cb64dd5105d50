import Parlance.Grammar.Basic
import Parlance.Text.Quoted

/-!
# The journal

The passes are functions of their inputs; what they did is told by events that are
read off their results. An event is written as one line: its level, what
happened, and the particulars in the form `name=value`.
-/

namespace Parlance

/-- Something that happened while a language was set up or a text was read. -/
inductive Event where
  | ruleAdded (start : String) (ending : Ending)
  | ruleRemoved (start : String)
  | nameDefined (name : String)
  | boundAdded (bound : Bound)
  | operatorAdded (name : String) (operator : Operator)
  | grammarConfigured (rules bounds : Nat) (resolves : Bool)
  | lexed (file : String) (tokens : Nat)
  | built (tokens nodes : Nat)
  | resolved (nodes : Nat)
  | resolutionSkipped (file : String)
  | reported (diagnostic : Diagnostic)

namespace Event

/-- How the ending of a rule is shown. -/
def showEnding : Ending → String
  | .none => "None"
  | .pattern text => s!"Pattern({Text.quoted text})"
  | .measured _ => "Callback(..)"

/-- How an optional text is shown. -/
def showOption : Option String → String
  | none => "None"
  | some text => s!"Some({Text.quoted text})"

/-- How an arity is shown. -/
def showArity : Arity → String
  | .binary => "Binary"
  | .unaryLeft => "UnaryLeft"
  | .unaryRight => "UnaryRight"
  | .unaryBoth => "UnaryBoth"

/-- The event on one line. -/
def line : Event → String
  | .ruleAdded start ending => s!"TRACE deliminate start={start} end={showEnding ending}"
  | .ruleRemoved start => s!"TRACE undeliminate start={start}"
  | .nameDefined name => s!"TRACE define macro name={name}"
  | .boundAdded bound =>
    let element := bound.element.getD ""
    s!"TRACE bind name={bound.name} start={bound.start} end={bound.closing} " ++
      s!"element={element} split={showOption bound.split}"
  | .operatorAdded name operator =>
    s!"TRACE add operator op={name} arity={showArity operator.arity} " ++
      s!"precedence={operator.precedence}"
  | .grammarConfigured rules bounds resolves =>
    s!"DEBUG grammar configured deliminators={rules} bounds={bounds} rewrites={resolves}"
  | .lexed file tokens => s!"DEBUG lexed file={file} tokens={tokens}"
  | .built tokens nodes => s!"DEBUG structure parsed tokens={tokens} nodes={nodes}"
  | .resolved nodes => s!"DEBUG expression parsed nodes={nodes}"
  | .resolutionSkipped file =>
    s!"DEBUG structure errors, skipping expression rewrite file={file}"
  | .reported diagnostic =>
    s!"DEBUG diagnostic code={diagnostic.id} detail={diagnostic.message}"

end Event

namespace Journal

/-- Diagnostics that enter a report. -/
def ofDiagnostics (diagnostics : List Diagnostic) : List Event := diagnostics.map .reported

/-- Tokens cut from a text. -/
def ofTokens (file : String) (tokens : Reported (List Token)) : List Event :=
  ofDiagnostics tokens.diagnostics ++ [.lexed file tokens.value.length]

/-- A tree built from the given number of tokens. -/
def ofBuilt (tokens : Nat) (built : Reported Tree) : List Event :=
  ofDiagnostics built.diagnostics ++ [.built tokens built.value.nodeCount]

/-- A resolved expression. -/
def ofResolved (expression : Reported Tree) : List Event :=
  ofDiagnostics expression.diagnostics ++ [.resolved expression.value.nodeCount]

/-- Resolved regions. -/
def ofResolution (resolution : Grammar.Resolution) : List Event :=
  resolution.regions.flatMap ofResolved

/-- A tree built from a text. -/
def ofBuildTree (file : String) (result : List Token × Reported Tree) : List Event :=
  .lexed file result.1.length :: ofBuilt result.1.length result.2

/-- A run of a grammar. -/
def ofRun (file : String) (run : Grammar.Run) : List Event :=
  ofBuildTree file (run.tokens, run.built) ++
    match run.resolution with
    | some resolution => ofResolution resolution
    | none => [.resolutionSkipped file]

/-- The events of adding declarations one after the other up to the first that is
refused, and the state reached, absent when one was refused. -/
def ofDeclarations {σ δ : Type} (add : σ → δ → Except ConfigError σ) (event : σ → δ → Event) :
    σ → List δ → List Event × Option σ
  | state, [] => ([], some state)
  | state, declaration :: rest =>
    match add state declaration with
    | .error _ => ([], none)
    | .ok next =>
      let (events, final) := ofDeclarations add event next rest
      (event next declaration :: events, final)

/-- The bound that was added last under the given start token, before its flag was
set. -/
def boundEvent (nesting : Nesting) (spec : BoundSpec) : Event :=
  .boundAdded ((nesting.opened? spec.start).getD { name := spec.name })

/-- The operator as it was declared. -/
def operatorEvent (expressions : Expressions) (spec : OperatorSpec) : Event :=
  .operatorAdded spec.operator
    ((expressions.operator? spec.operator).getD ⟨spec.arity, spec.precedence.getD 0⟩)

/-- The events of the part of a description behind its bounds. -/
def ofExpression (spec : Spec) (lexer : Lexer) : List Event :=
  let configured (resolves : Bool) : Event :=
    .grammarConfigured lexer.ruleCount spec.bounds.length resolves
  match spec.expression with
  | none => [configured false]
  | some expression =>
    let (events, final) := ofDeclarations Grammar.addOperator operatorEvent
      (Grammar.baseExpressions spec.literals expression) expression.operators
    events ++ if final.isSome then [configured true] else []

/-- The events of setting up a grammar, up to the first refusal. -/
def ofSpec (spec : Spec) : List Event :=
  let (rules, lexer) := ofDeclarations Grammar.addRule
    (fun _ rule => .ruleAdded rule.start (Lexer.endingOf rule.ending))
    (Grammar.baseLexer spec) spec.rules
  match lexer, Grammar.baseNesting spec.root with
  | none, _ => rules
  | some _, .error _ => rules ++ spec.definitions.keys.map .nameDefined
  | some lexer, .ok nesting =>
    let (bounds, final) := ofDeclarations Grammar.addBound boundEvent nesting spec.bounds
    rules ++ spec.definitions.keys.map .nameDefined ++ bounds ++
      if final.isSome then ofExpression spec lexer else []

end Journal

end Parlance
