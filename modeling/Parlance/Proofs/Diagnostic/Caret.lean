import Parlance.Diagnostic.Report
import Parlance.Proofs.Diagnostic.Lines
import Parlance.Proofs.Grammar.Sites

/-!
# The caret under a token

A report that knows the source shows the line of a diagnostic with a caret below it. The line is
looked up by its number in the index of the text, which counts bytes; the caret is put behind as
many characters as the token's column says, which was counted by the lexer. Both lead to the same
character: the first one of the token the diagnostic is about.

A newline is in no line, and a carriage return at the end of a line is not shown. So a token that
begins with one of these is left out here.
-/

namespace Parlance

/-- What is behind the last newline of a text. -/
def lastLine (text : List Char) : List Char := (text.reverse.takeWhile (· ≠ '\n')).reverse

/-- The text up to its last newline, and with it. -/
def linesBefore (text : List Char) : List Char := (text.reverse.dropWhile (· ≠ '\n')).reverse

/-- A text is what comes before its last line, and that line. -/
theorem linesBefore_append_lastLine (text : List Char) :
    linesBefore text ++ lastLine text = text := by
  rw [linesBefore, lastLine, ← List.reverse_append, List.takeWhile_append_dropWhile,
    List.reverse_reverse]

/-- What is in front of the first newline has no newline in it. -/
theorem newline_notMem_takeWhile (text : List Char) : '\n' ∉ text.takeWhile (· ≠ '\n') := by
  intro member
  simpa using List.mem_takeWhile_imp member

/-- There is no newline in the last line of a text. -/
theorem newline_notMem_lastLine (text : List Char) : '\n' ∉ lastLine text := by
  intro member
  exact newline_notMem_takeWhile text.reverse (List.mem_reverse.mp member)

/-- What is left of a text from its first newline on begins with it, if there is one. -/
theorem dropWhile_newline (text : List Char) :
    text.dropWhile (· ≠ '\n') = [] ∨ ∃ rest, text.dropWhile (· ≠ '\n') = '\n' :: rest := by
  cases left : text.dropWhile (· ≠ '\n') with
  | nil => exact .inl rfl
  | cons c rest =>
    have newline := List.head?_dropWhile_not (fun c => decide (c ≠ '\n')) text
    rw [left] at newline
    obtain rfl : c = '\n' := by simpa using newline
    exact .inr ⟨rest, rfl⟩

/-- The column behind a text is the length of its last line. -/
theorem Position.column_advance_eq (text : List Char) :
    (Position.advance {} text).column = (lastLine text).length := by
  rw [Position.column_advance_start, lastLine, List.length_reverse]

/-- A place between two characters is in the line that reaches from the last newline before it to
the first one behind it. -/
theorem lineAt_around (before after : List Char) :
    LineAt (before ++ after) (before.count '\n') (linesBefore before)
      (lastLine before ++ after.takeWhile (· ≠ '\n')) (after.dropWhile (· ≠ '\n')) := by
  constructor
  · rw [← List.append_assoc, linesBefore_append_lastLine, List.append_assoc,
      List.takeWhile_append_dropWhile]
  · conv_rhs => rw [← linesBefore_append_lastLine before]
    rw [List.count_append, List.count_eq_zero.mpr (newline_notMem_lastLine before)]
    rfl
  · intro member
    rcases List.mem_append.mp member with first | second
    · exact newline_notMem_lastLine before first
    · exact newline_notMem_takeWhile after second
  · rcases dropWhile_newline before.reverse with none | ⟨rest, found⟩
    · exact .inl (by rw [linesBefore, none]; rfl)
    · exact .inr ⟨rest.reverse, by rw [linesBefore, found, List.reverse_cons]⟩
  · exact dropWhile_newline after

/-- The line of the text that has the offset in it is `shown`, or `shown` with a carriage return
behind it. -/
def ShowsLineOf (text : List Char) (offset : Nat) (shown : List Char) : Prop :=
  ∃ number before content behind, LineAt text number before content behind ∧
    Text.byteLength before ≤ offset ∧
    offset < Text.byteLength before + Text.byteLength content ∧
    (content = shown ++ ['\r'] ∨ content = shown ∧ shown.getLast? ≠ some '\r')

/-- Behind `column` characters, which are tabs under tabs and spaces under anything else, comes the
place under the character `c` of the line. -/
structure PointsUnder (shown padding : List Char) (column : Nat) (c : Char) : Prop where
  length : padding.length = column
  blank : ∀ index < column,
    padding[index]? = if shown[index]? = some '\t' then some '\t' else some ' '
  under : shown[column]? = some c

namespace Report

/-- The padding up to a character of the line points under it. It has as many characters as are in
front of that one, and keeps those of them that are tabs. -/
theorem padding_pointsUnder {shown : List Char} {column : Nat} {c : Char}
    (under : shown[column]? = some c) : PointsUnder shown (padding shown column) column c := by
  have inside : column < shown.length := (List.getElem?_eq_some_iff.mp under).1
  refine ⟨?_, ?_, under⟩
  · rw [padding, List.length_map, List.length_take, Nat.min_eq_left (Nat.le_of_lt inside)]
  · intro index before
    have found := List.getElem?_eq_getElem (Nat.lt_trans before inside)
    rw [padding, List.getElem?_map, List.getElem?_take_of_lt before, found, Option.map_some]
    simp only [Option.some.injEq]
    split <;> rfl

end Report

namespace LineIndex

/-- The text of a line is the line without a carriage return at its end. A carriage return is left
out only once, and only where the newline would come. -/
theorem lineText?_at {text before content behind : List Char} {number : Nat}
    (line : LineAt text number before content behind) :
    ∃ shown, (ofText text).lineText? text number = some shown ∧
      (content = shown ++ ['\r'] ∨ content = shown ∧ shown.getLast? ≠ some '\r') := by
  rw [lineText?, lineRange?_at line, Option.map_some]
  simp only [slice_at line]
  by_cases returned : content.getLast? = some '\r'
  · refine ⟨content.dropLast, by rw [if_pos returned], .inl ?_⟩
    exact (List.dropLast_append_getLast? '\r' returned).symm
  · exact ⟨content, by rw [if_neg returned], .inr ⟨rfl, returned⟩⟩

/-- The text of the line around a character has this character in the column that a lexer counts
for it, unless it is a newline or a carriage return.

Proof: the column is the number of characters behind the last newline before it, so the character
is at this place of the line. A carriage return that is not shown is the last character of the line,
and so behind it. -/
theorem lineText?_around (before after : List Char) {c : Char} (notNewline : c ≠ '\n')
    (notReturn : c ≠ '\r') :
    ∃ shown,
      (ofText (before ++ c :: after)).lineText? (before ++ c :: after) (before.count '\n') =
        some shown ∧
      ShowsLineOf (before ++ c :: after) (Text.byteLength before) shown ∧
      shown[(Position.advance {} before).column]? = some c := by
  have line := lineAt_around before (c :: after)
  obtain ⟨shown, found, ending⟩ := lineText?_at line
  have taken : (c :: after).takeWhile (· ≠ '\n') = c :: after.takeWhile (· ≠ '\n') :=
    List.takeWhile_cons_of_pos (by simpa using notNewline)
  rw [taken] at line ending
  refine ⟨shown, found, ?_, ?_⟩
  · have positive : 0 < c.utf8Size := c.utf8Size_pos
    have bytes := congrArg Text.byteLength (linesBefore_append_lastLine before)
    rw [Text.byteLength_append] at bytes
    refine ⟨_, _, _, _, line, by omega, ?_, ending⟩
    rw [Text.byteLength_append, Text.byteLength]
    omega
  · rw [Position.column_advance_eq]
    have under : (lastLine before ++ c :: after.takeWhile (· ≠ '\n'))[(lastLine before).length]? =
        some c := by
      rw [List.getElem?_append_right (Nat.le_refl _), Nat.sub_self, List.getElem?_cons_zero]
    rcases ending with returned | ⟨same, _⟩
    · rw [returned] at under
      by_cases inside : (lastLine before).length < shown.length
      · rwa [List.getElem?_append_left inside] at under
      · rw [List.getElem?_append_right (Nat.not_lt.mp inside)] at under
        exact absurd (List.mem_singleton.mp (List.mem_of_getElem? under)) notReturn
    · rwa [same] at under

end LineIndex

namespace Problem

/-- A diagnostic names the text of its token. It is stored last, so no name that the problem itself
gives can be in its way. -/
theorem context?_token (problem : Problem) (token : Token) :
    (problem.diagnose token).context? "token" = some token.value := by
  have stored : Dictionary.ofList (problem.context token.value ++ [("token", token.value)]) =
      (Dictionary.ofList (problem.context token.value)).insert "token" token.value := by
    rw [Dictionary.ofList, Dictionary.ofList, List.foldl_append]
    rfl
  have found : (Dictionary.ofList (problem.context token.value ++
      [("token", token.value)])).find? "token" = some token.value := by
    rw [stored, Dictionary.find?_insert, if_pos rfl]
  have inhabited : (Dictionary.ofList (problem.context token.value ++
      [("token", token.value)])).entries.isEmpty = false := by
    rw [List.isEmpty_eq_false_iff]
    intro none
    rw [Dictionary.find?, none] at found
    cases found
  rw [Diagnostic.context?, diagnose, Diagnostic.catalogued]
  simp only [inhabited]
  exact found

end Problem

namespace Report

/-- A diagnostic that is added is shown behind the others. -/
theorem render_add (report : Report) (diagnostic : Diagnostic) :
    (report.add [diagnostic]).render = report.render ++ report.renderOne diagnostic := by
  have alone : String.join [report.renderOne diagnostic] = report.renderOne diagnostic := by
    simp [String.join]
  rw [render, add, List.map_append, String.join_append, List.map_singleton]
  exact congrArg _ alone

/-- A place and a message, then the text of a token, a line of the source, and the caret behind the
padding. -/
def pointed (file : String) (place : Position) (message value line padding : String) : String :=
  s!"{file}:{place.line}:{place.column} - {message}\n    from '{value}'\n    {line}\n    {padding}^\n"

/-- A diagnostic about a token whose line is found is shown with this line and the caret. The file
is the one that the report names, if it names one, and the one of the token otherwise. -/
theorem renderOne_diagnose {report : Report} {source shown : List Char} {token : Token}
    {previous : Nat} (known : report.source = some source) (nonempty : token.value ≠ "")
    (line : token.position.line = previous + 1)
    (found : (LineIndex.ofText source).lineText? source previous = some shown)
    (problem : Problem) :
    report.renderOne (problem.diagnose token) =
      pointed (report.fileName.getD token.file) token.position (problem.diagnose token).message
        token.value (String.ofList shown)
        (String.ofList (padding shown token.position.column)) := by
  have located : (problem.diagnose token).location = some token.location := rfl
  rw [renderOne, located, problem.context?_token, known]
  simp only [nonempty, if_false, Token.location, line, echo, found, pointed]
  apply String.toList_injective
  simp [String.toList_append, ToString.toString]

/-- Where a token of a text begins with a character that is neither a newline nor a carriage return,
whatever is reported about it is shown, in a report that knows the text, with the line that has the
token's offset in it, without its newline and without a carriage return at its end. The padding of
the caret has as many characters as the token's column says, tabs under tabs and spaces under
anything else, and what stands over the caret is the first character of the token. -/
theorem render_caret (lexer : Lexer) (text file : String) {token : Token}
    (member : token ∈ (lexer.lexWith Lexer.passOn { text, file }).value) {c : Char}
    (first : token.value.toList.head? = some c) (notNewline : c ≠ '\n') (notReturn : c ≠ '\r')
    (report : Report) (problem : Problem) :
    ∃ shown padding : List Char,
      ShowsLineOf text.toList token.position.offset shown ∧
      PointsUnder shown padding token.position.column c ∧
      ((report.setSource text).add [problem.diagnose token]).render =
        (report.setSource text).render ++
          pointed (report.fileName.getD token.file) token.position (problem.diagnose token).message
            token.value (String.ofList shown) (String.ofList padding) := by
  have scanned : token ∈ lexer.scan { text, file } := by
    simpa [Lexer.lexWith, Lexer.throughHook, Lexer.passOn] using member
  obtain ⟨before, after, divided, position⟩ := lexer.scan_stands text file token scanned
  obtain ⟨more, value⟩ : ∃ more, token.value.toList = c :: more := List.head?_eq_some_iff.mp first
  rw [value, List.cons_append] at divided
  obtain ⟨shown, found, shows, under⟩ :=
    LineIndex.lineText?_around before (more ++ after) notNewline notReturn
  rw [← divided] at found shows
  rw [← position] at under
  have nonempty : token.value ≠ "" := by
    intro empty
    rw [empty] at value
    cases value
  have line : token.position.line = before.count '\n' + 1 := by
    rw [position, Position.advance_eq, Nat.add_comm]
  have offset : token.position.offset = Text.byteLength before := by
    rw [position, Position.advance_offset, Nat.zero_add]
  refine ⟨shown, padding shown token.position.column, offset ▸ shows, padding_pointsUnder under, ?_⟩
  have known : (report.setSource text).source = some text.toList := rfl
  rw [render_add, renderOne_diagnose known nonempty line found problem]
  rfl

/-- Calls, in lines that may end with a carriage return before the newline. -/
def calls : Lexer :=
  Lexer.edited [.deliminate "\t" .none, .filtered "\t" true, .deliminate "\n" .none,
    .filtered "\n" true, .deliminate "(" .none]

/-- Behind a character of two bytes and a carriage return, the caret stands under the parenthesis of
the next line, with a tab before it. -/
theorem calls_caret :
    let text := "é;\r\n\tf(\r\n"
    let report : Report := { fileName := some "demo.mt" }
    let token : Token := ⟨"(", .deliminator, { line := 2, column := 2, offset := 7 }, "demo"⟩
    token ∈ (calls.lexWith Lexer.passOn { text, file := "demo" }).value ∧
      token.value.toList.head? = some '(' ∧
      ((report.setSource text).add [Problem.expectedExpression.diagnose token]).render =
        "demo.mt:2:2 - expected expression here\n    from '('\n    \tf(\n    \t ^\n" ∧
      ∃ shown padding : List Char,
        ShowsLineOf text.toList token.position.offset shown ∧
        PointsUnder shown padding token.position.column '(' ∧
        ((report.setSource text).add [Problem.expectedExpression.diagnose token]).render =
          (report.setSource text).render ++
            pointed (report.fileName.getD token.file) token.position
              (Problem.expectedExpression.diagnose token).message token.value
              (String.ofList shown) (String.ofList padding) := by
  intro text report token
  have member : token ∈ (calls.lexWith Lexer.passOn { text, file := "demo" }).value := by
    decide +kernel
  have first : token.value.toList.head? = some '(' := by
    decide +kernel
  refine ⟨member, first, by decide +kernel, ?_⟩
  exact render_caret calls text "demo" member first (by decide) (by decide) report
    .expectedExpression

end Report

end Parlance
