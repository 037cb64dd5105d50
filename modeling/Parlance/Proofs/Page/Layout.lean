import Parlance.Page
import Parlance.Proofs.Lexer.Blanks

/-!
# What stands on a page

A page counts its lines and columns as a lexer does, so the place where its next character
goes is the position behind its text. Putting a token on a page is writing padding and then
the token's text. The padding is made of newlines and spaces and depends only on where the
page is and where the token belongs: as long as the page is not yet past the token's place,
it leads there, unless the token is set off by a space from what it touches.

Only padding by spaces is covered, not the one by tabs.
-/

namespace Parlance

namespace Position

/-- The same line and the same column. -/
structure Level (first second : Position) : Prop where
  line : first.line = second.line
  column : first.column = second.column

instance (first second : Position) : Decidable (first.Level second) :=
  decidable_of_iff (first.line = second.line ∧ first.column = second.column)
    ⟨fun both => ⟨both.1, both.2⟩, fun level => ⟨level.line, level.column⟩⟩

/-- On an earlier line, or on the same line in an earlier column. -/
def Before (first second : Position) : Prop :=
  first.line < second.line ∨ first.line = second.line ∧ first.column < second.column

/-- Not on a later line, and not in a later column of the same line. -/
def NotAfter (first second : Position) : Prop :=
  first.line < second.line ∨ first.line = second.line ∧ first.column ≤ second.column

/-- Reading the same text leads from the same place to the same place. -/
theorem Level.advance {first second : Position} (level : first.Level second) (text : List Char) :
    (first.advance text).Level (second.advance text) := by
  rw [advance_eq, advance_eq, level.line, level.column]
  exact ⟨rfl, rfl⟩

/-- A position is level with itself. -/
theorem Level.refl (position : Position) : position.Level position := ⟨rfl, rfl⟩

/-- Being level goes both ways. -/
theorem Level.symm {first second : Position} (level : first.Level second) :
    second.Level first :=
  ⟨level.line.symm, level.column.symm⟩

/-- Positions that are level with the same one are level with each other. -/
theorem Level.trans {first second third : Position} (level : first.Level second)
    (next : second.Level third) : first.Level third :=
  ⟨level.line.trans next.line, level.column.trans next.column⟩

/-- A position is not after one that it is level with. -/
theorem Level.notAfter {first second : Position} (level : first.Level second) :
    first.NotAfter second :=
  .inr ⟨level.line, Nat.le_of_eq level.column⟩

/-- What is before a position is not after it. -/
theorem Before.notAfter {first second : Position} (before : first.Before second) :
    first.NotAfter second := by
  unfold Before at before
  unfold NotAfter
  omega

/-- A position that is not after one before a third is before the third. -/
theorem NotAfter.before {first second third : Position} (notAfter : first.NotAfter second)
    (before : second.Before third) : first.Before third := by
  unfold NotAfter at notAfter
  unfold Before at *
  omega

/-- A position before one that is not after a third is before the third. -/
theorem Before.of_notAfter {first second third : Position} (before : first.Before second)
    (notAfter : second.NotAfter third) : first.Before third := by
  unfold NotAfter at notAfter
  unfold Before at *
  omega

/-- Being before is passed on along positions. -/
theorem Before.trans {first second third : Position} (before : first.Before second)
    (next : second.Before third) : first.Before third := by
  unfold Before at *
  omega

/-- Being not after is passed on along positions. -/
theorem NotAfter.trans {first second third : Position} (notAfter : first.NotAfter second)
    (next : second.NotAfter third) : first.NotAfter third := by
  unfold NotAfter at *
  omega

/-- A position before another one is not level with it. -/
theorem Before.not_level {first second : Position} (before : first.Before second) :
    ¬ first.Level second := by
  rintro ⟨line, column⟩
  unfold Before at before
  omega

/-- Every character leads to a later place. A newline leads to the next line, and any other
character to the next column. -/
theorem before_step (position : Position) (c : Char) : position.Before (position.step c) := by
  unfold Before step
  split <;> simp

/-- Reading a text that is not empty leads to a later place. By induction over the text, every
character of which leads further. -/
theorem before_advance (position : Position) {text : List Char} (nonempty : text ≠ []) :
    position.Before (position.advance text) := by
  induction text generalizing position with
  | nil => exact absurd rfl nonempty
  | cons c text inductionHypothesis =>
    have first := position.before_step c
    cases text with
    | nil => exact first
    | cons next more => exact first.trans (inductionHypothesis (position.step c) (by simp))

/-- Reading a text does not lead back. -/
theorem notAfter_advance (position : Position) (text : List Char) :
    position.NotAfter (position.advance text) := by
  by_cases empty : text = []
  · rw [empty]
    exact (Level.refl position).notAfter
  · exact (position.before_advance empty).notAfter

/-- The position after beginning new lines until it is on the given line or below it. -/
def below (position : Position) (line : Nat) : Position :=
  position.advance (List.replicate (line - position.line) '\n')

/-- Newlines lead so many lines down, and to the beginning of the line if there are any. By
induction over their count, from the place behind the first one. -/
theorem advance_newlines (position : Position) (count : Nat) :
    (position.advance (List.replicate count '\n')).line = position.line + count ∧
      (position.advance (List.replicate count '\n')).column =
        if count = 0 then position.column else 0 := by
  induction count generalizing position with
  | zero => exact ⟨rfl, rfl⟩
  | succ count inductionHypothesis =>
    obtain ⟨line, column⟩ := inductionHypothesis (position.step '\n')
    rw [List.replicate_succ]
    refine ⟨line.trans ?_, column.trans ?_⟩
    · simp only [step, if_true]
      omega
    · simp [step]

/-- Going down to a line ends on that line, or stays on a lower one. -/
theorem below_line (position : Position) (line : Nat) :
    (position.below line).line = max position.line line := by
  rw [below, (position.advance_newlines _).1]
  omega

/-- Going down to a lower line ends at its beginning, and otherwise nothing changes. -/
theorem below_column (position : Position) (line : Nat) :
    (position.below line).column = if position.line < line then 0 else position.column := by
  rw [below, (position.advance_newlines _).2]
  split <;> split <;> omega

/-- Spaces lead so many columns further on the same line. By induction over their count, from the
place behind the first one. -/
theorem advance_spaces (position : Position) (count : Nat) :
    (position.advance (List.replicate count ' ')).line = position.line ∧
      (position.advance (List.replicate count ' ')).column = position.column + count := by
  induction count generalizing position with
  | zero => exact ⟨rfl, rfl⟩
  | succ count inductionHypothesis =>
    obtain ⟨line, column⟩ := inductionHypothesis (position.step ' ')
    rw [List.replicate_succ]
    refine ⟨line.trans (by simp [step]), column.trans ?_⟩
    simp only [step, Char.reduceEq, if_false]
    omega

end Position

namespace Page

/-! ## Writing -/

/-- The next character of the page goes to the line and column of the position. -/
structure At (page : Page) (position : Position) : Prop where
  line : page.line = position.line
  column : page.column = position.column

/-- Two texts written in turn are written as one. -/
theorem write_append (page : Page) (first second : List Char) :
    page.write (first ++ second) = (page.write first).write second := by
  simp [write]

/-- A page moves on as a lexer does. By induction over the text, each character of which moves both
in the same way. -/
theorem At.write {page : Page} {position : Position} (placed : page.At position)
    (text : List Char) : (page.write text).At (position.advance text) := by
  induction text generalizing page position with
  | nil => exact placed
  | cons c text inductionHypothesis =>
    refine @inductionHypothesis (page.writeChar c) (position.step c) ?_
    unfold writeChar Position.step
    split
    · exact ⟨by simp [placed.line], rfl⟩
    · exact ⟨placed.line, by simp [placed.column]⟩

/-- What is written stands behind what was there. -/
theorem write_text (page : Page) (text : List Char) :
    (page.write text).text.toList = page.text.toList ++ text := by
  induction text generalizing page with
  | nil => simp [write]
  | cons c text inductionHypothesis =>
    have first : (page.writeChar c).text.toList = page.text.toList ++ [c] := by
      unfold writeChar
      split <;> exact String.toList_push c
    rw [write, List.foldl_cons, ← write, inductionHypothesis, first, List.append_assoc,
      List.singleton_append]

/-! ## Tokens -/

/-- What is written on a token's line before its text, the page being in the given column:
spaces up to the column of the token, or a single one where a token of a definition touches
what stands before it. -/
def indent (column : Nat) (token : Token) : List Char :=
  if column < token.position.column then List.replicate (token.position.column - column) ' '
  else if token.tag = .synthetic ∧ column ≠ 0 then [' ']
  else []

/-- What is written before the text of a token: newlines down to its line, and what stands
before it there. -/
def padding (position : Position) (token : Token) : List Char :=
  List.replicate (token.position.line - position.line) '\n' ++
    indent (position.below token.position.line).column token

/-- Putting a token on a page is writing its padding and its text. The page goes down to the line of
the token and then to its column, and writes a space only where the two would touch. -/
theorem place_eq {page : Page} {position : Position} (placed : page.At position) (token : Token) :
    page.place false token = page.write (padding position token ++ token.value.toList) := by
  have reached := placed.write (List.replicate (token.position.line - position.line) '\n')
  have moved : page.downTo token.position.line =
      page.write (List.replicate (token.position.line - position.line) '\n') := by
    rw [downTo, placed.line]
  rw [← Position.below, ← moved] at reached
  rw [padding, List.append_assoc, write_append, ← moved, write_append, ← reached.column]
  unfold place indent
  simp only [Bool.and_false, Bool.false_eq_true, if_false, Bool.and_eq_true, decide_eq_true_eq,
    Bool.not_eq_true', decide_eq_false_iff_not]
  split
  · rfl
  · split <;> rfl

/-- A token of a definition that touches what stands before it on its line, and is set off
from it by a space. -/
def SetOff (position : Position) (token : Token) : Prop :=
  token.tag = .synthetic ∧ position.Level token.position ∧ token.position.column ≠ 0

instance (position : Position) (token : Token) : Decidable (SetOff position token) :=
  inferInstanceAs (Decidable (_ ∧ _ ∧ _))

/-- Only newlines and spaces are written between the tokens. Those down to the line are newlines,
and those up to the column are spaces. -/
theorem padding_blank (position : Position) (token : Token) :
    ∀ c ∈ padding position token, Lexer.Blank c := by
  intro c member
  rcases List.mem_append.mp member with newline | space
  · exact .inr (List.eq_of_mem_replicate newline)
  · unfold indent at space
    split at space
    · exact .inl (List.eq_of_mem_replicate space)
    · split at space
      · exact .inl (List.mem_singleton.mp space)
      · simp at space

/-- A token that is set off gets a single space before it. -/
theorem padding_of_setOff {position : Position} {token : Token} (setOff : SetOff position token) :
    padding position token = [' '] := by
  obtain ⟨synthetic, ⟨line, column⟩, inside⟩ := setOff
  simp [padding, indent, Position.below_column, line, column, synthetic, inside]

/-- Padding leads to the place of a token that is not set off, unless the page is past it. Newlines
lead to the line of the token and spaces to its column, unless the page is at the place already. -/
theorem padding_reaches {position : Position} {token : Token}
    (notAfter : position.NotAfter token.position) (free : ¬ SetOff position token) :
    (position.advance (padding position token)).Level token.position := by
  have line := position.below_line token.position.line
  have column := position.below_column token.position.line
  unfold Position.NotAfter at notAfter
  rw [padding, Position.advance_append, ← Position.below, indent]
  split
  · rename_i left
    obtain ⟨sameLine, moved⟩ := (position.below token.position.line).advance_spaces
      (token.position.column - (position.below token.position.line).column)
    exact ⟨by omega, by omega⟩
  · have level : (position.below token.position.line).Level token.position := by
      refine ⟨by omega, ?_⟩
      split at column <;> omega
    split
    · rename_i setOff
      refine absurd ⟨setOff.1, ?_, ?_⟩ free
      · split at column
        · exact absurd column setOff.2
        · exact ⟨by omega, by omega⟩
      · rw [← level.column]
        exact setOff.2
    · exact level

/-- There is padding before a token whose place the page has not reached. A newline leads there if
the token is on a lower line, and a space if it is further on the same line. -/
theorem padding_ne_nil {position : Position} {token : Token}
    (before : position.Before token.position) : padding position token ≠ [] := by
  have column := position.below_column token.position.line
  rcases before with line | ⟨line, left⟩
  · simp only [padding, ne_eq, List.append_eq_nil_iff, List.replicate_eq_nil_iff]
    omega
  · rw [if_neg (by omega)] at column
    simp only [padding, indent, ne_eq, List.append_eq_nil_iff, column, left, if_true,
      List.replicate_eq_nil_iff]
    omega

/-- The text that tokens add to a page that is at the position. -/
def textOf (position : Position) : List Token → List Char
  | [] => []
  | token :: tokens =>
    let written := padding position token ++ token.value.toList
    written ++ textOf (position.advance written) tokens

/-- Putting tokens on a page adds their text. By induction over the tokens, each of which leaves the
page at the place that the text of the others is counted from. -/
theorem foldl_place_text {page : Page} {position : Position} (placed : page.At position)
    (tokens : List Token) :
    (tokens.foldl (place false) page).text.toList = page.text.toList ++ textOf position tokens := by
  induction tokens generalizing page position with
  | nil => simp [textOf]
  | cons token tokens inductionHypothesis =>
    have next := placed.write (padding position token ++ token.value.toList)
    rw [← place_eq placed] at next
    rw [List.foldl_cons, inductionHypothesis next, place_eq placed, write_text, textOf,
      List.append_assoc]

/-- The text of a page with the given tokens. -/
theorem ofTokens_eq (tokens : List Token) :
    (ofTokens false tokens).toList = textOf {} tokens := by
  have whole := @foldl_place_text {} {} ⟨rfl, rfl⟩ tokens
  rw [ofTokens, whole]
  rfl

end Page

end Parlance
