import Parlance.Proofs.Lexer.Resumption
import Parlance.Proofs.Page.Relexing

/-!
# Spaces behind definitions

Tokens that are put in by a definition take the place of its name, and there may be more text
in them than in the name. So a page can be past the column of the next token on a line, and
spaces up to this column are missing then. This file finds out which tokens with filtered text
between them are kept apart by a page, and which are not.

No token of a definition has a newline in it. Then a page is never below the line where the
text is, and it is past the text only on a line that a synthetic token was put on. A synthetic
token is always set off from what stands before it. Any other token is kept apart from the one
before it exactly as long as the page has not reached its place.
-/

namespace Parlance

namespace Position

/-- A text in one line does not lead to another line. -/
theorem advance_line_of_notMem (position : Position) {text : List Char} (oneLine : '\n' ∉ text) :
    (position.advance text).line = position.line := by
  rw [advance_eq]
  simp [List.count_eq_zero.mpr oneLine]

/-- Behind a newline it does not matter in which column reading began. -/
theorem level_advance_of_mem {first second : Position} (line : first.line = second.line)
    {text : List Char} (newline : '\n' ∈ text) :
    (first.advance text).Level (second.advance text) := by
  obtain ⟨start, rest, rfl⟩ := List.append_of_mem newline
  rw [advance_append, advance_append]
  have level : ((first.advance start).step '\n').Level ((second.advance start).step '\n') := by
    constructor
    · simp [step, advance_eq, line]
    · simp [step]
  exact level.advance rest

/-- What is not after a position is on no later line. -/
theorem NotAfter.line_le {first second : Position} (notAfter : first.NotAfter second) :
    first.line ≤ second.line := by
  unfold NotAfter at notAfter
  omega

end Position

namespace Page

/-! ## The place behind tokens -/

/-- The place behind the text of tokens on a page. -/
def behind (tokens : List Token) : Position :=
  ({} : Position).advance (ofTokens false tokens).toList

/-- The text of two runs of tokens is that of the first, and that of the second from the place
behind it. -/
theorem textOf_append (place : Position) (first second : List Token) :
    textOf place (first ++ second) =
      textOf place first ++ textOf (place.advance (textOf place first)) second := by
  induction first generalizing place with
  | nil => rfl
  | cons token first inductionHypothesis =>
    simp only [List.cons_append, textOf, inductionHypothesis, List.append_assoc,
      Position.advance_append]

/-- Tokens add their text to that of the tokens before them. -/
theorem ofTokens_append (first second : List Token) :
    (ofTokens false (first ++ second)).toList =
      (ofTokens false first).toList ++ textOf (behind first) second := by
  rw [behind, ofTokens_eq, ofTokens_eq, textOf_append]

/-- The page with one more token has the padding and the text of this token at its end. -/
theorem ofTokens_concat (tokens : List Token) (token : Token) :
    (ofTokens false (tokens ++ [token])).toList =
      (ofTokens false tokens).toList ++ (padding (behind tokens) token ++ token.value.toList) := by
  rw [ofTokens_append, textOf, textOf, List.append_nil]

/-- With one more token, the page ends behind the padding and the text of this token. -/
theorem behind_concat (tokens : List Token) (token : Token) :
    behind (tokens ++ [token]) =
      (behind tokens).advance (padding (behind tokens) token ++ token.value.toList) := by
  rw [behind, ofTokens_concat, Position.advance_append]
  rfl

/-- What stands before a token on its line has no newlines. -/
theorem newline_notMem_indent (column : Nat) (token : Token) : '\n' ∉ indent column token := by
  unfold indent
  split
  · simp [List.mem_replicate]
  · split <;> simp

/-- Padding leads down to the line of a token, unless the page is below it. -/
theorem padding_line {place : Position} {token : Token}
    (above : place.line ≤ token.position.line) :
    (place.advance (padding place token)).line = token.position.line := by
  rw [padding, Position.advance_append, ← Position.below,
    Position.advance_line_of_notMem _ (newline_notMem_indent _ token), Position.below_line]
  exact Nat.max_eq_right above

/-- Which tokens have padding before them, on a page that is not below their line, and that is
above it or has something before them on it. -/
theorem padding_ne_nil_iff {place : Position} {token : Token}
    (above : place.line ≤ token.position.line)
    (inside : place.line < token.position.line ∨ 0 < token.position.column) :
    padding place token ≠ [] ↔ place.Before token.position ∨ token.tag = .synthetic := by
  by_cases before : place.Before token.position
  · exact iff_of_true (padding_ne_nil before) (.inl before)
  · have column := place.below_column token.position.line
    unfold Position.Before at before
    rw [if_neg (by omega)] at column
    have reached : ¬ place.column < token.position.column := by omega
    have started : place.column ≠ 0 := by omega
    have sameLine : token.position.line - place.line = 0 := by omega
    simp only [padding, indent, column, reached, started, sameLine, List.replicate_zero,
      List.nil_append, if_false, ne_eq, not_false_eq_true, and_true]
    unfold Position.Before
    by_cases synthetic : token.tag = .synthetic
    · simp [synthetic]
    · simp only [synthetic, if_false, or_false]
      exact iff_of_false (by simp) before

/-! ## The page and the text -/

/-- A page with the given tokens is not below the line of a position in the text, and past the
position only where a synthetic token is on the page's last line. -/
structure Trails (tokens : List Token) (position : Position) : Prop where
  line : (behind tokens).line ≤ position.line
  column : (behind tokens).NotAfter position ∨
    ∃ token ∈ tokens, token.tag = .synthetic ∧ token.position.line = (behind tokens).line

/-- The page without tokens is at the beginning of the text. -/
theorem trails_nil : Trails [] {} :=
  ⟨Nat.le_refl _, .inl (Position.Level.refl _).notAfter⟩

variable {tokens : List Token} {position : Position}

/-- Reading on leaves the page where it is. -/
theorem Trails.read (trails : Trails tokens position) (text : List Char) :
    Trails tokens (position.advance text) := by
  have moved := position.notAfter_advance text
  exact ⟨Nat.le_trans trails.line moved.line_le,
    trails.column.imp_left fun notAfter => notAfter.trans moved⟩

/-- The page keeps behind the text when a token of the text is put on it.

Proof: the token begins on its line, and what is behind a newline in it is level. If there is
no newline in it, the token is in its place, or it was set off, or the page was past its place
before. -/
theorem Trails.own (trails : Trails tokens position) (token : Token)
    (here : token.position = position) :
    Trails (tokens ++ [token]) (position.advance token.value.toList) := by
  subst here
  have begun := padding_line trails.line
  have ended := behind_concat tokens token
  rw [Position.advance_append] at ended
  have line : (behind (tokens ++ [token])).line =
      (token.position.advance token.value.toList).line := by
    rw [ended, Position.advance_eq, Position.advance_eq token.position, begun]
  refine ⟨Nat.le_of_eq line, ?_⟩
  by_cases newline : '\n' ∈ token.value.toList
  · apply Or.inl
    rw [ended]
    exact (Position.level_advance_of_mem begun newline).notAfter
  · rw [token.position.advance_line_of_notMem newline] at line
    by_cases notAfter : (behind tokens).NotAfter token.position
    · by_cases setOff : SetOff (behind tokens) token
      · exact .inr ⟨token, by simp, setOff.1, line.symm⟩
      · apply Or.inl
        rw [ended]
        exact ((padding_reaches notAfter setOff).advance _).notAfter
    · obtain ⟨earlier, member, synthetic, same⟩ := trails.column.resolve_left notAfter
      have onLine : (behind tokens).line = token.position.line := by
        have above := trails.line
        unfold Position.NotAfter at notAfter
        omega
      refine .inr ⟨earlier, List.mem_append_left _ member, synthetic, ?_⟩
      rw [same, onLine, line]

/-- Nor is the page below the line of a name when the tokens of its definition are put on
it. -/
theorem Trails.made (trails : Trails tokens position) (body : List Token)
    (oneLine : ∀ token ∈ body, '\n' ∉ token.value.toList)
    (here : ∀ token ∈ body, token.tag = .synthetic ∧ token.position = position) :
    Trails (tokens ++ body) position := by
  induction body generalizing tokens with
  | nil => rwa [List.append_nil]
  | cons token body inductionHypothesis =>
    obtain ⟨synthetic, place⟩ := here token List.mem_cons_self
    have line : (behind (tokens ++ [token])).line = token.position.line := by
      rw [behind_concat, Position.advance_append,
        Position.advance_line_of_notMem _ (oneLine token List.mem_cons_self)]
      exact padding_line (place ▸ trails.line)
    have first : Trails (tokens ++ [token]) position :=
      ⟨Nat.le_of_eq (place ▸ line), .inr ⟨token, by simp, synthetic, line.symm⟩⟩
    rw [List.append_cons]
    exact inductionHypothesis first
      (fun other member => oneLine other (List.mem_cons_of_mem _ member))
      fun other member => here other (List.mem_cons_of_mem _ member)

end Page

namespace Lexer

open Page

/-! ## Segments with definitions put in -/

variable {lexer : Lexer}

/-- The tokens of segments, the first of which is at `position`, with definitions put in. -/
def expansionOf (lexer : Lexer) (file : String) (position : Position)
    (segments : List Segment) : List Token :=
  (throughHook lexer.expand (tokensOf lexer.chain file position segments)).value

/-- No token of a definition has a newline in it. -/
def OneLined (lexer : Lexer) : Prop :=
  ∀ name body, lexer.definitions.find? name = some body → ∀ token ∈ body, '\n' ∉ token.value.toList

/-- The tokens of segments are those of the first ones, and those of the others from the place
behind the first ones. -/
theorem expansionOf_append (lexer : Lexer) (file : String) (position : Position)
    (first second : List Segment) :
    lexer.expansionOf file position (first ++ second) =
      lexer.expansionOf file position first ++
        lexer.expansionOf file (position.advance (first.flatMap Segment.text)) second := by
  simp only [expansionOf, throughHook, tokensOf_append, List.flatMap_append]

/-- A segment that is left out gives no tokens. -/
theorem expansionOf_filtered (lexer : Lexer) (file : String) (position : Position)
    {segment : Segment} (filtered : segment.isKept = false) :
    lexer.expansionOf file position [segment] = [] := by
  simp [expansionOf, throughHook, tokensOf, filtered]

/-- A segment that is kept gives its token, or the tokens of the definition for it. -/
theorem expansionOf_kept (lexer : Lexer) (file : String) (position : Position)
    {segment : Segment} (kept : segment.isKept) :
    lexer.expansionOf file position [segment] =
      (lexer.expand (tokenAt lexer.chain file position segment)).value := by
  rw [expansionOf, tokensOf_kept lexer.chain file position kept]
  simp [throughHook, tokensOf]

/-- Tokens that are put in stand where the names do, at or behind the start of the segments. -/
theorem notAfter_of_mem_expansionOf {file : String} {position : Position}
    {segments : List Segment} {token : Token}
    (member : token ∈ lexer.expansionOf file position segments) :
    position.NotAfter token.position := by
  obtain ⟨name, isName, made⟩ := List.mem_flatMap.mp member
  rw [lexer.expand_steady.position name token made]
  exact notAfter_of_mem_tokensOf isName

/-- The page keeps behind the text over a segment. A segment that is left out adds no token, a name
adds the tokens of its definition, and any other adds itself. -/
theorem trails_segment (oneLined : lexer.OneLined) {tokens : List Token} {position : Position}
    (trails : Trails tokens position) (file : String) (segment : Segment) :
    Trails (tokens ++ lexer.expansionOf file position [segment])
      (position.advance segment.text) := by
  cases kept : segment.isKept with
  | false =>
    rw [lexer.expansionOf_filtered file position kept, List.append_nil]
    exact trails.read segment.text
  | true =>
    rw [lexer.expansionOf_kept file position kept, expand]
    split
    · rename_i body found
      apply Trails.read
      apply trails.made
      · intro token member
        obtain ⟨word, isWord, rfl⟩ := List.mem_map.mp member
        exact oneLined _ _ found word isWord
      · intro token member
        obtain ⟨word, _, rfl⟩ := List.mem_map.mp member
        exact ⟨rfl, rfl⟩
    · have own := trails.own (tokenAt lexer.chain file position segment) rfl
      rwa [tokenAt, String.toList_ofList] at own

/-- The page keeps behind the text over all segments. -/
theorem trails_segments (oneLined : lexer.OneLined) {tokens : List Token} {position : Position}
    (trails : Trails tokens position) (file : String) (segments : List Segment) :
    Trails (tokens ++ lexer.expansionOf file position segments)
      (position.advance (segments.flatMap Segment.text)) := by
  induction segments generalizing tokens position with
  | nil => simpa [expansionOf, throughHook, tokensOf, Position.advance] using trails
  | cons segment segments inductionHypothesis =>
    have first := trails_segment oneLined trails file segment
    have split := lexer.expansionOf_append file position [segment] segments
    simp only [List.singleton_append, List.flatMap_singleton] at split
    rw [split, ← List.append_assoc, List.flatMap_cons, Position.advance_append]
    exact inductionHypothesis first

/-- A filtered segment divides the tokens of a text into those before it and those behind it. -/
theorem lex_of_filtered (lexer : Lexer) (text file : String) {read rest : List Segment}
    {gap : Segment} (cut : lexer.segments text.toList = read ++ gap :: rest)
    (filtered : gap.isKept = false) :
    lexer.lex text file = lexer.expansionOf file {} read ++
      lexer.expansionOf file (({} : Position).advance ((read ++ [gap]).flatMap Segment.text))
        rest := by
  have whole : lexer.lex text file = lexer.expansionOf file {} (read ++ [gap] ++ rest) := by
    rw [List.append_assoc, List.singleton_append, ← cut]
    rfl
  rw [whole, expansionOf_append, expansionOf_append, lexer.expansionOf_filtered file _ filtered,
    List.append_nil]

/-- What comes from behind a segment has a later place than the start of the segment, since no
segment is empty. -/
theorem before_of_mem_behind {text : String} {read rest : List Segment} {gap : Segment}
    (cut : lexer.segments text.toList = read ++ gap :: rest) {file : String} {token : Token}
    (member : token ∈ lexer.expansionOf file
      (({} : Position).advance ((read ++ [gap]).flatMap Segment.text)) rest) :
    (({} : Position).advance (read.flatMap Segment.text)).Before token.position := by
  have nonempty : gap.text ≠ [] := by
    apply lexer.segmentsFrom_text_ne_nil [] text.toList
    rw [← segments, cut]
    simp
  have passed := (({} : Position).advance (read.flatMap Segment.text)).before_advance nonempty
  have reached := notAfter_of_mem_expansionOf member
  rw [List.flatMap_append, List.flatMap_singleton, Position.advance_append] at reached
  exact passed.of_notAfter reached

/-- Where two successive tokens of a text, names being replaced by their definitions, have
filtered text between what they come from, the page has padding between them exactly when it
has not reached the place of the second one, or when that one is synthetic. So they run into
each other only where the second token stands for itself, and what is on its line before it has
reached its column. There is a synthetic token before it on this line then. -/
theorem lex_spacing_iff (lexer : Lexer) (oneLined : lexer.OneLined) (text file : String)
    {read rest : List Segment} {gap : Segment} {before after : List Token} {left right : Token}
    (cut : lexer.segments text.toList = read ++ gap :: rest) (filtered : gap.isKept = false)
    (earlier : lexer.expansionOf file {} read = before ++ [left])
    (later : lexer.expansionOf file
      (({} : Position).advance ((read ++ [gap]).flatMap Segment.text)) rest = right :: after) :
    lexer.lex text file = before ++ left :: right :: after ∧
      ∃ spacing others : List Char,
        (ofTokens false (before ++ [left, right])).toList =
          (ofTokens false (before ++ [left])).toList ++ (spacing ++ right.value.toList) ∧
        (ofTokens false (lexer.lex text file)).toList =
          (ofTokens false (before ++ [left])).toList ++ (spacing ++ right.value.toList) ++ others ∧
        (∀ c ∈ spacing, Blank c) ∧
        (spacing ≠ [] ↔
          (behind (before ++ [left])).Before right.position ∨ right.tag = .synthetic) ∧
        (spacing = [] → ∃ token ∈ before ++ [left],
          token.tag = .synthetic ∧ token.position.line = right.position.line) := by
  have lexed := lexer.lex_of_filtered text file cut filtered
  rw [earlier, later] at lexed
  have trails := trails_segments oneLined trails_nil file read
  rw [earlier, List.nil_append] at trails
  have apart := before_of_mem_behind cut (later ▸ List.mem_cons_self)
  have above : (behind (before ++ [left])).line ≤ right.position.line :=
    Nat.le_trans trails.line apart.notAfter.line_le
  have inside : (behind (before ++ [left])).line < right.position.line ∨
      0 < right.position.column := by
    have line := trails.line
    unfold Position.Before at apart
    omega
  have spaced := padding_ne_nil_iff above inside
  refine ⟨by simp [lexed], padding (behind (before ++ [left])) right,
    textOf (behind (before ++ [left] ++ [right])) after, ?_, ?_, padding_blank _ right, spaced, ?_⟩
  · rw [← ofTokens_concat]
    simp
  · rw [lexed, List.append_cons, ofTokens_append, ofTokens_concat]
  · intro fused
    have passed : ¬ (behind (before ++ [left])).Before right.position := fun unreached =>
      spaced.mpr (.inl unreached) fused
    have overtaken := trails.column.resolve_left fun notAfter => passed (notAfter.before apart)
    obtain ⟨token, put, synthetic, line⟩ := overtaken
    refine ⟨token, put, synthetic, ?_⟩
    unfold Position.Before at passed
    omega

/-- Blanks, which give no tokens, and a name for a longer word. -/
def abbreviating : Lexer :=
  edited [.deliminate " " .none, .filtered " " true,
    .defined (.ofList [("M", [.bare "abc" .symbol])])]

/-- The word that is put in for the name reaches beyond the column of the next token, and the
two run into each other. -/
theorem abbreviating_runs_together :
    let left : Token := ⟨"abc", .synthetic, {}, ""⟩
    let right : Token := ⟨"x", .symbol, { column := 2, offset := 2 }, ""⟩
    abbreviating.lex "M x" "" = [left, right] ∧
      ofTokens false (abbreviating.lex "M x" "") = "abcx" ∧
      (ofTokens false [left, right]).toList =
        (ofTokens false [left]).toList ++ right.value.toList ∧
      ∃ token ∈ [left], token.tag = .synthetic ∧ token.position.line = right.position.line := by
  intro left right
  have oneLined : abbreviating.OneLined := by
    intro name body found
    have definitions : abbreviating.definitions =
        Dictionary.empty.insert "M" [.bare "abc" .symbol] := rfl
    rw [definitions, Dictionary.find?_insert] at found
    split at found
    · cases found
      decide
    · cases found
  have cut : abbreviating.segments "M x".toList =
      [.run ['M']] ++ .region ⟨" ", .none, none, true, by decide⟩ [' '] :: [.run ['x']] := by
    with_unfolding_all rfl
  have earlier : abbreviating.expansionOf "" {} [.run ['M']] = [] ++ [left] := by
    decide +kernel
  have later : abbreviating.expansionOf ""
      (({} : Position).advance ['M', ' ']) [.run ['x']] = right :: [] := by
    decide +kernel
  obtain ⟨lexed, spacing, _, both, _, _, spaced, overtaken⟩ :=
    abbreviating.lex_spacing_iff oneLined "M x" "" cut rfl earlier later
  have reached : behind [left] = { column := 3, offset := 3 } := by
    decide +kernel
  have fused : spacing = [] := by
    by_contra padded
    rcases spaced.mp padded with unreached | synthetic
    · rw [List.nil_append, reached] at unreached
      revert unreached
      simp [Position.Before, right]
    · cases synthetic
  refine ⟨lexed, by decide +kernel, ?_, overtaken fused⟩
  rw [fused] at both
  exact both

end Lexer

end Parlance
