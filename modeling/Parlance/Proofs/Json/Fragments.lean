import Parlance.Proofs.Json.Decoration

/-!
# What a text with comments consists of

A text with comments falls into fragments: string literals, comments, and the characters outside
of both. A literal runs to its closing quote and a comment to its end, or to the end of the text
when there is none. What a literal contains is no comment, and what a comment contains is no
literal. Nothing is asked of the text; it need not be JSON.

Removing the comments leaves the other fragments as they are, and of each comment its newlines.
The fragments around a comment cannot form a new comment. Both marks of a comment begin with a
slash, so do all comments, and a slash in front of a comment would have begun one itself. Hence
a second removal finds nothing. This is shown for whatever blanks the comments leave, since it
is also needed where they are blanked out in full.
-/

namespace Parlance.Json

/-! ## Literals -/

/-- A literal and what is behind it are the whole text. -/
theorem throughQuote_flatten (text : List Char) :
    (throughQuote text).1 ++ (throughQuote text).2 = text := by
  fun_induction throughQuote text with
  | case1 => rfl
  | case2 rest => rfl
  | case3 c rest inductionHypothesis => simp [inductionHypothesis]
  | case4 c rest _ _ inductionHypothesis => simp [inductionHypothesis]

/-- A literal ends at the same place whatever is written behind it; only one that is not closed
must have nothing behind it. -/
theorem throughQuote_append {text behind : List Char}
    (ends : (throughQuote text).2 = [] → behind = []) :
    throughQuote ((throughQuote text).1 ++ behind) = ((throughQuote text).1, behind) := by
  fun_induction throughQuote text with
  | case1 =>
    rw [ends rfl]
    rfl
  | case2 rest => rfl
  | case3 c rest inductionHypothesis =>
    simp only [List.cons_append]
    rw [throughQuote, inductionHypothesis ends]
  | case4 c rest unquoted unescaped inductionHypothesis =>
    simp only [List.cons_append]
    rw [throughQuote, inductionHypothesis ends]
    · exact unquoted
    · intro d more backslash next
      -- A backslash that escapes nothing is the last character of the text.
      cases rest with
      | nil =>
        rw [ends rfl] at next
        simp [throughQuote] at next
      | cons d more => exact unescaped d more backslash rfl

/-! ## Fragments -/

/-- A text that begins inside a block comment: what belongs to the comment, its end included, and
what is behind it. A comment that is not closed takes everything. -/
def throughEnd : List Char → List Char × List Char
  | [] => ([], [])
  | '*' :: '/' :: rest => (['*', '/'], rest)
  | c :: rest => (c :: (throughEnd rest).1, (throughEnd rest).2)

/-- A block comment and what is behind it are the whole text. -/
theorem throughEnd_flatten (text : List Char) :
    (throughEnd text).1 ++ (throughEnd text).2 = text := by
  fun_induction throughEnd text with
  | case1 => rfl
  | case2 rest => rfl
  | case3 c rest _ inductionHypothesis => simp [inductionHypothesis]

/-- Behind a block comment there is no more text than from its beginning on, so that the fragments
of a text come to an end. -/
theorem length_throughEnd_le (text : List Char) :
    (throughEnd text).2.length ≤ text.length := by
  have flattened := congrArg List.length (throughEnd_flatten text)
  rw [List.length_append] at flattened
  omega

/-- A part of a text with comments. -/
inductive Fragment where
  /-- A character that is in no literal and in no comment. -/
  | character (c : Char)
  /-- A string literal with its quotes. -/
  | literal (text : List Char)
  /-- A comment with its marks. The newline behind a line comment is not part of it. -/
  | comment (text : List Char)
deriving DecidableEq, Repr

/-- The fragments of a text, which begins outside of literals and comments. -/
def fragments (text : List Char) : List Fragment :=
  match text with
  | [] => []
  | '"' :: rest => .literal ('"' :: (throughQuote rest).1) :: fragments (throughQuote rest).2
  | '/' :: '/' :: rest =>
    .comment ('/' :: '/' :: rest.takeWhile (· ≠ '\n')) :: fragments (rest.dropWhile (· ≠ '\n'))
  | '/' :: '*' :: rest =>
    .comment ('/' :: '*' :: (throughEnd rest).1) :: fragments (throughEnd rest).2
  | c :: rest => .character c :: fragments rest
termination_by text.length
decreasing_by
  · exact Nat.lt_succ_of_le (length_throughQuote_le rest)
  · exact Nat.lt_succ_of_lt (Nat.lt_succ_of_le (List.dropWhile_suffix _).length_le)
  · exact Nat.lt_succ_of_lt (Nat.lt_succ_of_le (length_throughEnd_le rest))
  · exact Nat.lt_succ_self _

/-- What is written for a fragment when a comment is replaced by `left` of it. -/
def Fragment.replaced (left : List Char → List Char) : Fragment → List Char
  | .character c => [c]
  | .literal text => text
  | .comment text => left text

/-- The text with `left` of each comment in its place. -/
def replaceComments (left : List Char → List Char) (text : List Char) : List Char :=
  (fragments text).flatMap (Fragment.replaced left)

/-- The empty text has no comments to be replaced. -/
theorem replaceComments_nil (left : List Char → List Char) : replaceComments left [] = [] := by
  rw [replaceComments, fragments, List.flatMap_nil]

/-- A literal is written as it is, and the rest of the text with its comments replaced. -/
theorem replaceComments_quote (left : List Char → List Char) (rest : List Char) :
    replaceComments left ('"' :: rest) =
      '"' :: ((throughQuote rest).1 ++ replaceComments left (throughQuote rest).2) := by
  rw [replaceComments, fragments, List.flatMap_cons]
  rfl

/-- A line comment is replaced up to its newline, which is not a part of it. -/
theorem replaceComments_line (left : List Char → List Char) (rest : List Char) :
    replaceComments left ('/' :: '/' :: rest) =
      left ('/' :: '/' :: rest.takeWhile (· ≠ '\n')) ++
        replaceComments left (rest.dropWhile (· ≠ '\n')) := by
  rw [replaceComments, fragments, List.flatMap_cons]
  rfl

/-- A block comment is replaced with its end, or up to the end of the text. -/
theorem replaceComments_block (left : List Char → List Char) (rest : List Char) :
    replaceComments left ('/' :: '*' :: rest) =
      left ('/' :: '*' :: (throughEnd rest).1) ++ replaceComments left (throughEnd rest).2 := by
  rw [replaceComments, fragments, List.flatMap_cons]
  rfl

/-- A character that begins neither a literal nor a comment is written as it is. -/
theorem replaceComments_cons (left : List Char → List Char) {c : Char} {rest : List Char}
    (unquoted : c ≠ '"') (slashes : ∀ behind, c = '/' → rest = '/' :: behind → False)
    (starred : ∀ behind, c = '/' → rest = '*' :: behind → False) :
    replaceComments left (c :: rest) = c :: replaceComments left rest := by
  rw [replaceComments, fragments, List.flatMap_cons]
  · rfl
  · exact unquoted
  · exact slashes
  · exact starred

/-- Nothing is written for what is empty, in the form in which an unclosed literal needs it. -/
theorem replaceComments_eq_nil (left : List Char → List Char) {text : List Char}
    (empty : text = []) : replaceComments left text = [] := by
  rw [empty, replaceComments_nil]

/-- The literal that a fragment is. -/
def Fragment.literal? : Fragment → Option (List Char)
  | .literal text => some text
  | _ => none

/-- The string literals of a text that are not in its comments, in the order of the text. -/
def literals (text : List Char) : List (List Char) := (fragments text).filterMap Fragment.literal?

/-- The string literals of a text without comments, in the order of the text. -/
def quoted (text : List Char) : List (List Char) :=
  match text with
  | [] => []
  | '"' :: rest => ('"' :: (throughQuote rest).1) :: quoted (throughQuote rest).2
  | _ :: rest => quoted rest
termination_by text.length
decreasing_by
  · exact Nat.lt_succ_of_le (length_throughQuote_le rest)
  · exact Nat.lt_succ_self _

/-- The newlines of a comment. -/
def newlinesOf (comment : List Char) : List Char := comment.filter (· = '\n')

/-- The fragments are the whole text. By induction over the fragments, of which each is put back. -/
theorem replaceComments_id (text : List Char) : replaceComments id text = text := by
  induction text using fragments.induct with
  | case1 => exact replaceComments_nil id
  | case2 rest inductionHypothesis =>
    rw [replaceComments_quote, inductionHypothesis, throughQuote_flatten]
  | case3 rest inductionHypothesis =>
    rw [replaceComments_line, inductionHypothesis]
    simp only [id_eq, List.cons_append, List.takeWhile_append_dropWhile]
  | case4 rest inductionHypothesis =>
    rw [replaceComments_block, inductionHypothesis]
    simp only [id_eq, List.cons_append, throughEnd_flatten]
  | case5 c rest unquoted slashes starred inductionHypothesis =>
    rw [replaceComments_cons id unquoted slashes starred, inductionHypothesis]

/-! ## Removing comments, fragment by fragment -/

/-- A literal is copied. By induction over the way to its closing quote, where an escaped quote is
passed. -/
theorem uncommented_literal_eq (text : List Char) :
    uncommented .literal text =
      (throughQuote text).1 ++ uncommented .code (throughQuote text).2 := by
  fun_induction throughQuote text with
  | case1 => rfl
  | case2 rest => rw [uncommented, List.singleton_append]
  | case3 c rest inductionHypothesis =>
    rw [uncommented, inductionHypothesis]
    rfl
  | case4 c rest unquoted unescaped inductionHypothesis =>
    rw [uncommented, inductionHypothesis]
    · rfl
    · exact unquoted
    · exact unescaped

/-- A line comment leaves its newlines, of which there are none, and the removal goes on in front of
the newline that ends it. -/
theorem uncommented_lineComment_eq (text : List Char) :
    uncommented .lineComment text =
      newlinesOf (text.takeWhile (· ≠ '\n')) ++ uncommented .code (text.dropWhile (· ≠ '\n')) := by
  induction text with
  | nil => rfl
  | cons c rest inductionHypothesis =>
    by_cases newline : c = '\n'
    · subst newline
      rw [List.takeWhile_cons_of_neg (by simp), List.dropWhile_cons_of_neg (by simp),
        uncommented_code_cons (by decide : '\n' ≠ '"') (by decide), uncommented]
      rfl
    · rw [List.takeWhile_cons_of_pos (by simpa using newline),
        List.dropWhile_cons_of_pos (by simpa using newline), uncommented, inductionHypothesis]
      · simp [newlinesOf, newline]
      · exact newline

/-- A block comment leaves its newlines, and the removal goes on behind its end. By induction over
the way to its end, with one case for a newline and one for any other character. -/
theorem uncommented_blockComment_eq (text : List Char) :
    uncommented .blockComment text =
      newlinesOf (throughEnd text).1 ++ uncommented .code (throughEnd text).2 := by
  fun_induction throughEnd text with
  | case1 => rfl
  | case2 rest =>
    rw [uncommented]
    rfl
  | case3 c rest unended inductionHypothesis =>
    by_cases newline : c = '\n'
    · subst newline
      rw [uncommented, inductionHypothesis]
      rfl
    · rw [uncommented, inductionHypothesis]
      · simp [newlinesOf, newline]
      · exact unended
      · exact newline

/-- Without its comments, a text is its other fragments and the newlines of the comments. The
induction is over the fragments of the text, and the removal treats each kind in its own way. -/
theorem stripComments_eq (text : List Char) :
    stripComments text = replaceComments newlinesOf text := by
  unfold stripComments
  induction text using fragments.induct with
  | case1 => exact (replaceComments_nil newlinesOf).symm
  | case2 rest inductionHypothesis =>
    rw [uncommented, uncommented_literal_eq, inductionHypothesis, replaceComments_quote]
  | case3 rest inductionHypothesis =>
    rw [uncommented, uncommented_lineComment_eq, inductionHypothesis, replaceComments_line]
    rfl
  | case4 rest inductionHypothesis =>
    rw [uncommented, uncommented_blockComment_eq, inductionHypothesis, replaceComments_block]
    rfl
  | case5 c rest unquoted slashes starred inductionHypothesis =>
    rw [uncommented, inductionHypothesis, replaceComments_cons newlinesOf unquoted slashes starred]
    · exact unquoted
    · exact slashes
    · exact starred

/-! ## What stands outside of literals -/

/-- Where a place of a text stands with respect to its literals. -/
inductive Quoting where
  | outside
  | inside
  /-- Inside, behind a backslash. -/
  | escaped
deriving DecidableEq, Repr

/-- Where the place behind a character stands. -/
def Quoting.step : Quoting → Char → Quoting
  | .outside, c => if c = '"' then .inside else .outside
  | .inside, c => if c = '"' then .outside else if c = '\\' then .escaped else .inside
  | .escaped, _ => .inside

/-- Every mark of a comment in the text begins inside a string literal. The text begins at a
place that stands as `state` says. -/
def Commentless (state : Quoting) (text : List Char) : Prop :=
  ∀ before c after, text = before ++ '/' :: c :: after → c = '/' ∨ c = '*' →
    before.foldl Quoting.step state ≠ .outside

/-- The empty text has no mark of a comment. -/
theorem Commentless.nil (state : Quoting) : Commentless state [] := by
  intro before c after split
  simp at split

/-- A character begins a mark only together with the next one. So a text has no comment in it
exactly if its first two characters are no mark and the rest has none, read in the state behind the
first character. -/
theorem commentless_cons_iff {state : Quoting} {c : Char} {rest : List Char} :
    Commentless state (c :: rest) ↔
      (state = .outside → c = '/' → rest.head? ≠ some '/' ∧ rest.head? ≠ some '*') ∧
        Commentless (state.step c) rest := by
  constructor
  · intro commentless
    constructor
    · rintro rfl rfl
      constructor
      · intro next
        obtain ⟨after, rfl⟩ := List.head?_eq_some_iff.mp next
        exact commentless [] '/' after rfl (.inl rfl) rfl
      · intro next
        obtain ⟨after, rfl⟩ := List.head?_eq_some_iff.mp next
        exact commentless [] '*' after rfl (.inr rfl) rfl
    · intro before d after split marks
      exact commentless (c :: before) d after (by rw [split, List.cons_append]) marks
  · rintro ⟨first, commentless⟩ before d after split marks
    cases before with
    | nil =>
      obtain ⟨rfl, rfl⟩ := List.cons.inj split
      intro outside
      obtain ⟨noSlash, noStar⟩ := first outside rfl
      rcases marks with rfl | rfl
      · exact noSlash rfl
      · exact noStar rfl
    | cons other before =>
      obtain ⟨rfl, split⟩ := List.cons.inj split
      exact commentless before d after (by simpa using split) marks

/-- The place at which a zone that is not a comment begins. -/
def Zone.quoting : Zone → Quoting
  | .literal => .inside
  | _ => .outside

/-- A text without comments is not changed by their removal. By induction over the removal. The
cases inside of a comment do not arise, and those that begin one are excluded by the hypothesis. -/
theorem Commentless.uncommented_eq {zone : Zone} {text : List Char}
    (commentless : Commentless zone.quoting text) (visible : zone = .code ∨ zone = .literal) :
    uncommented zone text = text := by
  fun_induction uncommented zone text with
  | case1 => rfl
  | case2 rest inductionHypothesis =>
    rw [inductionHypothesis (commentless_cons_iff.mp commentless).2 (.inr rfl)]
  | case3 rest _ =>
    exact absurd rfl ((commentless_cons_iff.mp commentless).1 rfl rfl).1
  | case4 rest _ =>
    exact absurd rfl ((commentless_cons_iff.mp commentless).1 rfl rfl).2
  | case5 c rest unquoted _ _ inductionHypothesis =>
    have further := (commentless_cons_iff.mp commentless).2
    rw [show Zone.code.quoting.step c = .outside from if_neg unquoted] at further
    rw [inductionHypothesis further (.inl rfl)]
  | case6 rest inductionHypothesis =>
    rw [inductionHypothesis (commentless_cons_iff.mp commentless).2 (.inl rfl)]
  | case7 c rest inductionHypothesis =>
    have further := (commentless_cons_iff.mp (commentless_cons_iff.mp commentless).2).2
    rw [inductionHypothesis further (.inr rfl)]
  | case8 c rest unquoted unescaped inductionHypothesis =>
    cases rest with
    | nil => rfl
    | cons d more =>
      have further := (commentless_cons_iff.mp commentless).2
      have inside : Zone.literal.quoting.step c = .inside := by
        rw [Zone.quoting, Quoting.step, if_neg unquoted,
          if_neg fun backslash => unescaped d more backslash rfl]
      rw [inside] at further
      rw [inductionHypothesis further (.inr rfl)]
  | case9 | case10 | case11 | case12 | case13 => simp at visible

/-- Inside of a literal nothing begins a comment. -/
theorem Commentless.cons_quoted {state : Quoting} {c : Char} {rest : List Char}
    (quoted : state ≠ .outside) (further : Commentless (state.step c) rest) :
    Commentless state (c :: rest) :=
  commentless_cons_iff.mpr ⟨fun outside => absurd outside quoted, further⟩

/-- A literal has no comment in it. By induction over the way to its closing quote, everything up to
that quote is inside, where no mark counts. -/
theorem Commentless.literal {text behind : List Char} (commentless : Commentless .outside behind)
    (ends : (throughQuote text).2 = [] → behind = []) :
    Commentless .inside ((throughQuote text).1 ++ behind) := by
  fun_induction throughQuote text with
  | case1 =>
    rw [ends rfl]
    exact .nil _
  | case2 rest =>
    exact .cons_quoted (by simp) commentless
  | case3 c rest inductionHypothesis =>
    have further : Commentless .escaped (c :: ((throughQuote rest).1 ++ behind)) :=
      .cons_quoted (by simp) (inductionHypothesis ends)
    exact .cons_quoted (by simp) further
  | case4 c rest unquoted unescaped inductionHypothesis =>
    refine .cons_quoted (by simp) ?_
    by_cases backslash : c = '\\'
    · cases rest with
      | nil =>
        rw [ends rfl]
        exact .nil _
      | cons d more => exact (unescaped d more backslash rfl).elim
    · rw [Quoting.step, if_neg unquoted, if_neg backslash]
      exact inductionHypothesis ends

/-- Blanks begin neither a literal nor a comment. By induction over the blanks, none of which is a
slash or a quote. -/
theorem Commentless.blanks {blanks behind : List Char} (blank : ∀ c ∈ blanks, isSpace c)
    (commentless : Commentless .outside behind) : Commentless .outside (blanks ++ behind) := by
  induction blanks with
  | nil => exact commentless
  | cons c others inductionHypothesis =>
    obtain ⟨space, spaces⟩ := List.forall_mem_cons.mp blank
    refine commentless_cons_iff.mpr ⟨fun _ slash => ?_, ?_⟩
    · exact absurd slash (ne_of_class space '/' (by decide))
    · rw [Quoting.step, if_neg (ne_of_class space '"' (by decide))]
      exact inductionHypothesis spaces

/-- A text that does not begin with a comment, begins as it did. A quote is copied with its literal,
and any other character by itself. -/
theorem head?_replaceComments (left : List Char → List Char) {text : List Char}
    (slashless : text.head? ≠ some '/') : (replaceComments left text).head? = text.head? := by
  cases text with
  | nil => rw [replaceComments_nil]
  | cons c rest =>
    have different : c ≠ '/' := fun slash => slashless (congrArg some slash)
    by_cases quote : c = '"'
    · subst quote
      rw [replaceComments_quote]
      rfl
    · rw [replaceComments_cons left quote (fun _ slash => absurd slash different)
        (fun _ slash => absurd slash different)]
      rfl

/-- Where comments leave only blanks, no comment is formed around them. The induction is over the
fragments of the text, where literals are passed as a whole. -/
theorem commentless_replaceComments {left : List Char → List Char}
    (blank : ∀ comment, ∀ c ∈ left comment, isSpace c) (text : List Char) :
    Commentless .outside (replaceComments left text) := by
  induction text using fragments.induct with
  | case1 =>
    rw [replaceComments_nil]
    exact .nil _
  | case2 rest inductionHypothesis =>
    rw [replaceComments_quote]
    refine commentless_cons_iff.mpr ⟨fun _ slash => absurd slash (by decide), ?_⟩
    exact inductionHypothesis.literal (replaceComments_eq_nil left)
  | case3 rest inductionHypothesis =>
    rw [replaceComments_line]
    exact inductionHypothesis.blanks (blank _)
  | case4 rest inductionHypothesis =>
    rw [replaceComments_block]
    exact inductionHypothesis.blanks (blank _)
  | case5 c rest unquoted slashes starred inductionHypothesis =>
    rw [replaceComments_cons left unquoted slashes starred]
    refine commentless_cons_iff.mpr ⟨?_, ?_⟩
    · -- A slash that was copied is not followed by a mark, and so not by a comment.
      rintro _ rfl
      have noSlash : rest.head? ≠ some '/' := by
        intro next
        obtain ⟨behind, rfl⟩ := List.head?_eq_some_iff.mp next
        exact slashes behind rfl rfl
      have noStar : rest.head? ≠ some '*' := by
        intro next
        obtain ⟨behind, rfl⟩ := List.head?_eq_some_iff.mp next
        exact starred behind rfl rfl
      rw [head?_replaceComments left noSlash]
      exact ⟨noSlash, noStar⟩
    · rw [Quoting.step, if_neg unquoted]
      exact inductionHypothesis

/-- A character that is no quote begins no literal. -/
theorem quoted_cons_of_ne {c : Char} (unquoted : c ≠ '"') (rest : List Char) :
    quoted (c :: rest) = quoted rest := by
  rw [quoted]
  exact unquoted

/-- Blanks in front of a text change nothing about its literals. -/
theorem quoted_blanks {blanks : List Char} (blank : ∀ c ∈ blanks, isSpace c)
    (behind : List Char) : quoted (blanks ++ behind) = quoted behind := by
  induction blanks with
  | nil => rfl
  | cons c others inductionHypothesis =>
    obtain ⟨space, spaces⟩ := List.forall_mem_cons.mp blank
    rw [List.cons_append, quoted_cons_of_ne (ne_of_class space '"' (by decide)),
      inductionHypothesis spaces]

/-- Where comments leave only blanks, the literals of the text are those that were in no
comment. -/
theorem quoted_replaceComments {left : List Char → List Char}
    (blank : ∀ comment, ∀ c ∈ left comment, isSpace c) (text : List Char) :
    quoted (replaceComments left text) = literals text := by
  unfold literals
  fun_induction fragments text with
  | case1 => rw [replaceComments_nil, quoted, List.filterMap_nil]
  | case2 rest inductionHypothesis =>
    rw [replaceComments_quote, quoted, throughQuote_append (replaceComments_eq_nil left),
      inductionHypothesis]
    rfl
  | case3 rest inductionHypothesis =>
    rw [replaceComments_line, quoted_blanks (blank _), inductionHypothesis]
    rfl
  | case4 rest inductionHypothesis =>
    rw [replaceComments_block, quoted_blanks (blank _), inductionHypothesis]
    rfl
  | case5 c rest unquoted slashes starred inductionHypothesis =>
    rw [replaceComments_cons left unquoted slashes starred, quoted_cons_of_ne unquoted,
      inductionHypothesis]
    rfl

/-! ## Complete removal -/

/-- What a removed comment leaves is blank. -/
theorem isSpace_of_mem_newlinesOf {comment : List Char} : ∀ c ∈ newlinesOf comment, isSpace c := by
  intro c member
  have newline : c = '\n' := by simpa using (List.mem_filter.mp member).2
  rw [newline]
  rfl

/-- Whatever the text, what is left of it has no mark of a comment outside of its string
literals. Removing comments once more changes nothing, and the literals that are left are those
that were in no comment, as they were written. -/
theorem stripComments_complete (text : List Char) :
    Commentless .outside (stripComments text) ∧
      stripComments (stripComments text) = stripComments text ∧
      quoted (stripComments text) = literals text := by
  have blank (comment : List Char) : ∀ c ∈ newlinesOf comment, isSpace c :=
    isSpace_of_mem_newlinesOf
  have commentless : Commentless Zone.code.quoting (stripComments text) := by
    rw [stripComments_eq]
    exact commentless_replaceComments blank text
  refine ⟨commentless, commentless.uncommented_eq (.inl rfl), ?_⟩
  rw [stripComments_eq, quoted_replaceComments blank]

end Parlance.Json
