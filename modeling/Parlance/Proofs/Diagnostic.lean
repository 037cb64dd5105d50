import Parlance.Diagnostic.Catalogue
import Parlance.Proofs.Lexer.Tiling

/-!
# Tokens and the diagnostics about them

Every diagnostic of the passes is made for a token, whose place it takes over. So what
a pass reports points into the text as long as the pass only reports tokens that stand
in the text.
-/

namespace Parlance

/-- The diagnostic was made for a token with the given property. -/
def Diagnostic.About (holds : Token → Prop) (diagnostic : Diagnostic) : Prop :=
  ∃ (problem : Problem) (token : Token), holds token ∧ diagnostic = problem.diagnose token

/-- A problem found with a token is reported about it. -/
theorem Problem.diagnose_about {holds : Token → Prop} (problem : Problem) {token : Token}
    (held : holds token) : (problem.diagnose token).About holds :=
  ⟨problem, token, held, rfl⟩

/-- A property of tokens may be replaced by a weaker one. -/
theorem Diagnostic.About.mono {holds weaker : Token → Prop} {diagnostic : Diagnostic}
    (about : diagnostic.About holds) (implies : ∀ token, holds token → weaker token) :
    diagnostic.About weaker := by
  obtain ⟨problem, token, held, made⟩ := about
  exact ⟨problem, token, implies token held, made⟩

/-- The diagnostic points at a true position of the text. Its bytes begin between two
characters, and its line and column are those of that place: the line is one more than
the newlines before it, and the column counts the characters since the last of these. -/
def Diagnostic.PointsInto (text : String) (diagnostic : Diagnostic) : Prop :=
  ∃ (before after : List Char) (span : Span) (location : Location),
    text.toList = before ++ after ∧
      diagnostic.span = some span ∧ span.start = Text.byteLength before ∧
      diagnostic.location = some location ∧ location.line = 1 + before.count '\n' ∧
      location.column = (before.reverse.takeWhile (· ≠ '\n')).length

/-- The token has the position of a character of the text, or that of its end. -/
def Token.StandsIn (text : String) (token : Token) : Prop :=
  ∃ before after, text.toList = before ++ after ∧ token.position = Position.advance {} before

/-- The column behind a text counts its characters since the last newline. -/
theorem Position.column_advance_start (text : List Char) :
    (Position.advance {} text).column = (text.reverse.takeWhile (· ≠ '\n')).length := by
  rw [Position.advance_eq, List.foldl_eq_foldr_reverse]
  induction text.reverse with
  | nil => rfl
  | cons c rest inductionHypothesis =>
    by_cases newline : c = '\n'
    · simp [newline]
    · simpa [newline] using inductionHypothesis

/-- A diagnostic about a token that stands in the text points into the text. -/
theorem Diagnostic.About.pointsInto {text : String} {diagnostic : Diagnostic}
    (about : diagnostic.About (Token.StandsIn text)) : diagnostic.PointsInto text := by
  obtain ⟨problem, token, ⟨before, after, divided, position⟩, rfl⟩ := about
  refine ⟨before, after, token.span, token.location, divided, rfl, ?_, rfl, ?_, ?_⟩
  · simp [Token.span, position, Position.advance_offset]
  · simp [Token.location, position, Position.advance_eq]
  · rw [Token.location, position, Position.column_advance_start]

end Parlance
