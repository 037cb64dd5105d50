import Parlance.Command.Arguments
import Parlance.Diagnostic.Json
import Parlance.Diagnostic.Report
import Parlance.Grammar.Basic
import Parlance.Page
import Parlance.Text.Quoted
import Parlance.Tree.Json

/-!
# Running a command

A command is a function of its arguments and of the files it reads. It gives an
exit code, what goes to standard output, and what else there is to tell: why it
failed, the diagnostics of the input, and a coloured line that counts them. The
exit code is one when there is an error among the diagnostics.
-/

namespace Parlance.Command

/-- Why a file cannot be read. -/
inductive ReadError where
  | missing
  | directory
  | other (reason : String)
deriving DecidableEq, Repr

/-- The wording of a failure to read. -/
def ReadError.message : ReadError → String
  | .missing => "No such file or directory (os error 2)"
  | .directory => "Is a directory (os error 21)"
  | .other reason => reason

/-- The contents of files by their paths. -/
abbrev Files := String → Except ReadError String

/-- Why a command failed. -/
inductive Failure where
  | unreadable (what path : String) (error : ReadError)
  | invalidGrammar (path : String) (error : Grammar.Error)
  | tooDeep (path : String) (depth : Nat)
deriving DecidableEq, Repr

/-- The deepest tree that is written as JSON. -/
def jsonMaxDepth : Nat := 2048

/-- Begin every further line of a text behind four spaces. -/
def indented (text : String) : String := String.intercalate "\n    " (text.splitOn "\n")

/-- A failure with its cause. -/
def withCause (failure cause : String) : String :=
  s!"Error: {failure}\n\nCaused by:\n    {indented cause}\n"

/-- The wording of a failure. -/
def Failure.message : Failure → String
  | .unreadable what path error => withCause s!"failed to read {what} '{path}'" error.message
  | .invalidGrammar path (.config error) => withCause s!"invalid grammar '{path}'" error.message
  | .invalidGrammar path (.document error) =>
    s!"Error: invalid grammar '{path}'\n\nCaused by:\n" ++
      s!"    0: invalid grammar document: {error.message}\n    1: {error.message}\n"
  | .tooDeep path depth =>
    s!"Error: tree for '{path}' is {depth} levels deep; " ++
      s!"JSON output supports at most {jsonMaxDepth}\n"

/-- What a command gives. -/
structure Outcome where
  code : Nat := 0
  stdout : String := ""
  failure : Option Failure := none
  /-- Whether something was logged before a failure. -/
  logged : Bool := false
  /-- The diagnostics of the input as text. -/
  diagnostics : String := ""
  /-- The line that counts the diagnostics. -/
  summary : Option String := none
deriving Repr

/-- A failed command. -/
def Outcome.failed (failure : Failure) (logged : Bool) : Outcome :=
  { code := 1, failure := some failure, logged }

/-- A text in a colour of the terminal. -/
def coloured (colour : Nat) (text : String) : String := s!"\x1b[{colour}m{text}\x1b[0m"

/-- A counted word in its plural unless it is one. -/
def counted (count : Nat) (word : String) : String :=
  if count = 1 then s!"{count} {word}" else s!"{count} {word}s"

/-- The line that counts diagnostics by severity, absent when there are none. -/
def summary? (diagnostics : List Diagnostic) : Option String :=
  let count (severity : Severity) := diagnostics.countP (fun held => held.severity = severity)
  let parts :=
    (if 0 < count .error then [coloured 31 (counted (count .error) "error")] else []) ++
    (if 0 < count .warn then [coloured 33 (counted (count .warn) "warning")] else []) ++
    (if 0 < count .info then [coloured 34 s!"{count .info} info"] else [])
  if parts.isEmpty then none else some (String.intercalate ", " parts)

/-- Read the grammar and then the text of an input. -/
def load (files : Files) (input : Input) (verbose : Bool) :
    Except Outcome (Grammar × String) :=
  match files input.grammar with
  | .error error => .error (.failed (.unreadable "grammar" input.grammar error) false)
  | .ok document =>
    match Grammar.ofText document with
    | .error error => .error (.failed (.invalidGrammar input.grammar error) false)
    | .ok grammar =>
      match files input.file with
      | .error error => .error (.failed (.unreadable "source" input.file error) verbose)
      | .ok source => .ok (grammar, source)

/-- One line of a listing of tokens. -/
def tokenLine (token : Token) : String :=
  s!"{token.position.line}:{token.position.column}\t{token.tag.short}\t" ++
    Text.quoted token.value ++ "\n"

/-- The listing of tokens. -/
def showTokens (format : Format) (tokens : List Token) : String :=
  match format with
  | .json => Token.listing tokens ++ "\n"
  | .pretty => String.join (tokens.map tokenLine)

/-- The tree of a text with its diagnostics. -/
def showTree (format : Format) (input : Input) (source : String) (tree : Tree)
    (diagnostics : List Diagnostic) (logged : Bool) : Outcome :=
  let code := if diagnostics.any (·.isError) then 1 else 0
  match format with
  | .pretty =>
    let report := (Report.setFileName {} input.file).setSource source
    { code, stdout := tree.text ++ "\n"
      diagnostics := (report.add diagnostics).render, summary := summary? diagnostics }
  | .json =>
    let depth := tree.depth
    if jsonMaxDepth < depth then .failed (.tooDeep input.file depth) logged
    else
      let document := Json.Value.record [("file", .text input.file), ("tree", tree.toValue),
        ("diagnostics", .list (diagnostics.map Diagnostic.toValue))]
      { code, stdout := document.pretty ++ "\n" }

/-- The explanation of a diagnostic. -/
def showExplanation (format : Format) (id : String) : String :=
  match format, explanation? id with
  | .json, explanation =>
    (Json.Value.record [("explanation", (explanation.map Json.Value.text).getD .null),
      ("id", .text id)]).pretty ++ "\n"
  | .pretty, some explanation => s!"{coloured 36 id}: {explanation}\n"
  | .pretty, none => s!"{id}: (no explanation available)\n"

/-- A text that ends with a newline. -/
def endLine (text : String) : String := if text.endsWith "\n" then text else text ++ "\n"

/-- Carry out a call. -/
def run (files : Files) (invocation : Invocation) : Outcome :=
  let { request, format, verbose } := invocation
  let reading (input : Input) (present : Grammar → String → Outcome) : Outcome :=
    match load files input verbose with
    | .error outcome => outcome
    | .ok (grammar, source) => present grammar source
  match request with
  | .lex input => reading input fun grammar source =>
    { stdout := showTokens format (grammar.lex source input.file) }
  | .tree input => reading input fun grammar source =>
    let (_, built) := grammar.buildTree source input.file
    showTree format input source built.value built.diagnostics verbose
  | .expr input => reading input fun grammar source =>
    let run := grammar.run source input.file
    showTree format input source run.tree run.diagnostics (verbose || grammar.expressions.isNone)
  | .reconstruct input => reading input fun grammar source =>
    { stdout := endLine (Page.ofTokens false (grammar.lex source input.file)) }
  | .explain id => { stdout := showExplanation format id }

/-- What the program prints when it is asked for its version. -/
def version : String := "frontkit 0.1.0\n"

/-- What the program prints when it is asked for help. -/
def help : String :=
  "Usage: frontkit [--output pretty|json] [-v] COMMAND\n\n" ++
  "Commands:\n" ++
  "  lex FILE --grammar GRAMMAR          list the tokens of a file\n" ++
  "  tree FILE --grammar GRAMMAR         show its tree as it is built\n" ++
  "  expr FILE --grammar GRAMMAR         show its tree with expressions resolved\n" ++
  "  reconstruct FILE --grammar GRAMMAR  lay out its tokens again\n" ++
  "  explain ID                          explain a diagnostic\n"

/-- Carry out a call given by its arguments. -/
def runArguments (files : Files) (arguments : List String) : Outcome :=
  match Invocation.ofArguments arguments with
  | .ok invocation => run files invocation
  | .error .usage => { code := 2 }
  | .error .version => { stdout := version }
  | .error .help => { stdout := help }

end Parlance.Command
