/-!
# The command line

The program is called with the name of a command, its arguments and options. The
options for the output and for verbosity may stand before or behind the name of
the command. An option with a value takes it from behind an equals sign or from
the next argument, which must not look like an option itself; short options may be
written together. Each option may be given once on either side of the command, and
behind the command counts more.
-/

namespace Parlance.Command

/-- The form of the output. -/
inductive Format where
  | pretty
  | json
deriving DecidableEq, Repr

/-- The form with the given name. -/
def Format.ofName? : String → Option Format
  | "pretty" => some .pretty
  | "json" => some .json
  | _ => none

/-- A text to be read with a grammar. -/
structure Input where
  file : String
  grammar : String
deriving DecidableEq, Repr

/-- What the program is asked to do. -/
inductive Request where
  /-- List the tokens of a text. -/
  | lex (input : Input)
  /-- Show the tree of a text as it is built. -/
  | tree (input : Input)
  /-- Show the tree of a text with its expressions resolved. -/
  | expr (input : Input)
  /-- Lay out the tokens of a text again. -/
  | reconstruct (input : Input)
  /-- Explain a diagnostic. -/
  | explain (id : String)
deriving DecidableEq, Repr

/-- A call of the program. -/
structure Invocation where
  request : Request
  format : Format
  verbose : Bool
deriving DecidableEq, Repr

/-- Why a call asks for nothing to be done. -/
inductive Halt where
  /-- The arguments make no sense. -/
  | usage
  /-- The version is asked for. -/
  | version
  /-- Help is asked for. -/
  | help
deriving DecidableEq, Repr

/-- The options and plain arguments on one side of the command's name. -/
structure Given where
  output : Option Format := none
  verbose : Bool := false
  grammar : Option String := none
  plain : List String := []
deriving DecidableEq, Repr

/-- Where options stand: before the command, behind one that reads a text, or behind
one that does not. -/
inductive Side where
  | before
  | reading
  | other
deriving DecidableEq, Repr

/-- An option. -/
inductive Switch where
  | output
  | grammar
  | verbose
  | version
  | help
deriving DecidableEq, Repr

namespace Switch

/-- The long name of an option. -/
def name : Switch → String
  | .output => "output"
  | .grammar => "grammar"
  | .verbose => "verbose"
  | .version => "version"
  | .help => "help"

/-- The short name of an option, if it has one. -/
def letter? : Switch → Option Char
  | .output => none
  | .grammar => some 'g'
  | .verbose => some 'v'
  | .version => some 'V'
  | .help => some 'h'

/-- Whether the option takes a value. -/
def takesValue : Switch → Bool
  | .output | .grammar => true
  | _ => false

/-- The options that may stand on a side. The version is only asked for before the
command, and a grammar only given behind one that reads a text. -/
def allowed : Side → List Switch
  | .before => [.output, .verbose, .version, .help]
  | .reading => [.output, .grammar, .verbose, .help]
  | .other => [.output, .verbose, .help]

end Switch

namespace Given

/-- Take note of an option with a value, which may be given once. -/
def set (given : Given) (switch : Switch) (value : String) : Except Halt Given :=
  match switch with
  | .output => match given.output, Format.ofName? value with
    | none, some format => .ok { given with output := some format }
    | _, _ => .error .usage
  | .grammar => match given.grammar with
    | none => .ok { given with grammar := some value }
    | some _ => .error .usage
  | _ => .error .usage

/-- Take note of an option without a value, which may be given once. -/
def mark (given : Given) (switch : Switch) : Except Halt Given :=
  match switch with
  | .verbose => if given.verbose then .error .usage else .ok { given with verbose := true }
  | .version => .error .version
  | .help => .error .help
  | _ => .error .usage

end Given

/-- Whether an argument looks like an option. -/
def looksLikeOption (argument : String) : Bool :=
  match argument.toList with
  | '-' :: _ :: _ => true
  | _ => false

/-- Take the value of an option from the arguments behind it. Gives how many of
them were used up. -/
def setFromNext (given : Given) (switch : Switch) (rest : List String) :
    Except Halt (Given × Nat) :=
  match rest with
  | [] => .error .usage
  | value :: _ =>
    if looksLikeOption value then .error .usage
    else (given.set switch value).map (·, 1)

/-- Take note of a long option, written without its dashes. -/
def readLong (side : Side) (given : Given) (text : List Char) (rest : List String) :
    Except Halt (Given × Nat) :=
  let name := String.ofList (text.takeWhile (· ≠ '='))
  match (Switch.allowed side).find? (fun switch => switch.name = name) with
  | none => .error .usage
  | some switch =>
    match text.dropWhile (· ≠ '=') with
    | [] =>
      if switch.takesValue then setFromNext given switch rest
      else (given.mark switch).map (·, 0)
    | _ :: value => (given.set switch (String.ofList value)).map (·, 0)

/-- Take note of short options written together, without their dash. -/
def readShort (side : Side) (given : Given) (rest : List String) :
    List Char → Except Halt (Given × Nat)
  | [] => .ok (given, 0)
  | letter :: letters =>
    match (Switch.allowed side).find? (fun switch => switch.letter? = some letter) with
    | none => .error .usage
    | some switch =>
      if switch.takesValue then
        match letters with
        | [] => setFromNext given switch rest
        | '=' :: value => (given.set switch (String.ofList value)).map (·, 0)
        | value => (given.set switch (String.ofList value)).map (·, 0)
      else do
        let marked ← given.mark switch
        readShort side marked rest letters

/-- Take note of an argument that looks like an option. -/
def readOption (side : Side) (given : Given) (argument : String) (rest : List String) :
    Except Halt (Given × Nat) :=
  match argument.toList with
  | '-' :: '-' :: text => readLong side given text rest
  | '-' :: letters => readShort side given rest letters
  | _ => .error .usage

/-- Read the arguments behind the command. Behind two dashes all are plain. -/
def readBehind (side : Side) (given : Given) : List String → Except Halt Given
  | [] => .ok given
  | argument :: rest =>
    if argument = "--" then .ok { given with plain := given.plain ++ rest }
    else if looksLikeOption argument then
      match readOption side given argument rest with
      | .error halt => .error halt
      | .ok (noted, used) => readBehind side noted (rest.drop used)
    else readBehind side { given with plain := given.plain ++ [argument] } rest
termination_by arguments => arguments.length
decreasing_by all_goals simp only [List.length_drop, List.length_cons]; omega

/-- Read the arguments before the command, up to its name. -/
def readBefore (given : Given) : List String → Except Halt (Given × String × List String)
  | [] => .error .usage
  | argument :: rest =>
    if argument = "--" then .error .usage
    else if looksLikeOption argument then
      match readOption .before given argument rest with
      | .error halt => .error halt
      | .ok (noted, used) => readBefore noted (rest.drop used)
    else .ok (given, argument, rest)
termination_by arguments => arguments.length
decreasing_by simp only [List.length_drop, List.length_cons]; omega

/-- The command of the given name, if it is one that reads a text. -/
def readingRequest? : String → Option (Input → Request)
  | "lex" => some .lex
  | "tree" => some .tree
  | "expr" => some .expr
  | "reconstruct" => some .reconstruct
  | _ => none

/-- Read the request of a command with the arguments behind it. -/
def readRequest (name : String) (arguments : List String) : Except Halt (Request × Given) :=
  match readingRequest? name with
  | some request => do
    let given ← readBehind .reading {} arguments
    match given.plain, given.grammar with
    | [file], some grammar => return (request { file, grammar }, given)
    | _, _ => throw .usage
  | none =>
    if name = "explain" then do
      let given ← readBehind .other {} arguments
      match given.plain with
      | [id] => return (.explain id, given)
      | _ => throw .usage
    else if name = "help" then .error .help
    else .error .usage

/-- Read the arguments of a call. Output goes to another program unless the call says
otherwise, so it is JSON by default. -/
def Invocation.ofArguments (arguments : List String) : Except Halt Invocation := do
  let (before, name, rest) ← readBefore {} arguments
  let (request, behind) ← readRequest name rest
  return {
    request
    format := (behind.output.or before.output).getD .json
    verbose := before.verbose || behind.verbose }

end Parlance.Command
