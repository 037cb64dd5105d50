import Parlance.Diagnostic.Basic
import Parlance.Diagnostic.LineIndex

/-!
# Reports

A report collects the diagnostics of a session in order. Its text gives each one
with the name of the file, the place and the message, then the offending token,
and, when the source is known, the line in question with a caret under the
column. Tabs before the column stay tabs, so that the caret stands right.
-/

namespace Parlance

/-- The diagnostics of a session, with what is needed to show them. -/
structure Report where
  fileName : Option String := none
  source : Option (List Char) := none
  diagnostics : List Diagnostic := []
deriving Repr, Inhabited

namespace Report

/-- The last component of a path, empty and `.` components not counting. A path
without one, and one that leads to the parent, is kept whole. -/
def baseName (path : String) : String :=
  let components := (path.splitOn "/").reverse.dropWhile (fun part => part = "" || part = ".")
  match components with
  | [] => path
  | last :: _ => if last = ".." then path else last

/-- Show diagnostics under the last component of `path`. -/
def setFileName (report : Report) (path : String) : Report :=
  { report with fileName := some (baseName path) }

/-- Show lines of `text` with the diagnostics. -/
def setSource (report : Report) (text : String) : Report :=
  { report with source := some text.toList }

/-- Add diagnostics at the end. -/
def add (report : Report) (diagnostics : List Diagnostic) : Report :=
  { report with diagnostics := report.diagnostics ++ diagnostics }

/-- Forget the diagnostics, and keep the file name and the source. -/
def clear (report : Report) : Report := { report with diagnostics := [] }

/-- The number of diagnostics. -/
def count (report : Report) : Nat := report.diagnostics.length

/-- Whether there are no diagnostics. -/
def isEmpty (report : Report) : Bool := report.diagnostics.isEmpty

/-- The number of errors among the diagnostics. -/
def errorCount (report : Report) : Nat := report.diagnostics.countP (·.isError)

/-- Whether there is an error among the diagnostics. -/
def hasErrors (report : Report) : Bool := 0 < report.errorCount

/-- What stands before the caret: a tab under a tab, a space under anything else,
up to the column or the end of the line. -/
def padding (line : List Char) (column : Nat) : List Char :=
  (line.take column).map fun c => if c = '\t' then '\t' else ' '

/-- The source line of a place with a caret under the column. Lines are counted
from one; there is nothing to show for line zero or behind the last. -/
def echo (source : List Char) (line column : Nat) : List Char :=
  match line with
  | 0 => []
  | previous + 1 =>
    match (LineIndex.ofText source).lineText? source previous with
    | none => []
    | some content =>
      "    ".toList ++ content ++ '\n' :: "    ".toList ++ padding content column ++ ['^', '\n']

/-- The text of one diagnostic. -/
def renderOne (report : Report) (diagnostic : Diagnostic) : String :=
  let (file, line, column) := match diagnostic.location with
    | some location => (report.fileName.getD location.file, location.line, location.column)
    | none => (report.fileName.getD "--", 0, 0)
  let heading := s!"{file}:{line}:{column} - {diagnostic.message}\n"
  let token := match diagnostic.context? "token" with
    | some value => if value = "" then "" else s!"    from '{value}'\n"
    | none => ""
  let shown := match report.source with
    | some source => String.ofList (echo source line column)
    | none => ""
  heading ++ token ++ shown

/-- The text of all diagnostics. -/
def render (report : Report) : String :=
  String.join (report.diagnostics.map report.renderOne)

end Report

end Parlance
