import Parlance.Dictionary
import Parlance.Token

/-!
# Diagnostics

A diagnostic is something to be told about an input: a code, how serious it is, a
message, and, where they are known, the bytes and the place it is about and named
pieces of context that went into the message.
-/

namespace Parlance

/-- How serious a diagnostic is. -/
inductive Severity where
  | error
  | warn
  | info
deriving DecidableEq, Repr, Inhabited

namespace Severity

/-- The name of a severity. -/
def name : Severity → String
  | .error => "error"
  | .warn => "warn"
  | .info => "info"

/-- The severity with the given name. -/
def ofName? (name : String) : Option Severity :=
  [Severity.error, .warn, .info].find? (fun severity => severity.name = name)

end Severity

/-- Something to be told about an input. -/
structure Diagnostic where
  id : String
  severity : Severity
  message : String
  span : Option Span := none
  location : Option Location := none
  context : Option (Dictionary String) := none
deriving DecidableEq, Repr

namespace Diagnostic

/-- The diagnostic on one line. -/
def text (diagnostic : Diagnostic) : String :=
  s!"{diagnostic.severity.name}[{diagnostic.id}]: {diagnostic.message}"

/-- Whether the diagnostic is an error. -/
def isError (diagnostic : Diagnostic) : Bool := diagnostic.severity = .error

/-- The named piece of context. -/
def context? (diagnostic : Diagnostic) (key : String) : Option String :=
  diagnostic.context.bind (·.find? key)

end Diagnostic

/-- A value, and the diagnostics that arose on the way to it, oldest first. -/
structure Reported (α : Type) where
  value : α
  diagnostics : List Diagnostic := []
deriving Repr

end Parlance
