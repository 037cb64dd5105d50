import Parlance.Diagnostic.Basic
import Parlance.Json.Value

/-!
# Diagnostics as JSON

A diagnostic is a record of its code, severity and message, followed by those of
span, place and context that are known.
-/

namespace Parlance

/-- The span as a JSON record. -/
def Span.toValue (span : Span) : Json.Value :=
  .record [("start", .integer span.start), ("end", .integer span.stop)]

/-- The place as a JSON record. -/
def Location.toValue (location : Location) : Json.Value :=
  .record [("file", .text location.file), ("line", .integer location.line),
    ("column", .integer location.column)]

/-- The diagnostic as a JSON record. -/
def Diagnostic.toValue (diagnostic : Diagnostic) : Json.Value :=
  let context (held : Dictionary String) : Json.Value :=
    .record (held.entries.map fun entry => (entry.1, .text entry.2))
  .record ([("id", .text diagnostic.id), ("severity", .text diagnostic.severity.name),
      ("message", .text diagnostic.message)]
    ++ (diagnostic.span.map fun span => ("span", span.toValue)).toList
    ++ (diagnostic.location.map fun location => ("location", location.toValue)).toList
    ++ (diagnostic.context.map fun held => ("context", context held)).toList)

end Parlance
