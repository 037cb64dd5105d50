import Parlance.Proofs.Json.Fusion

/-!
# Texts that differ in blanks

A text is respaced when blanks are put into it, anywhere but inside of literals and between two
characters of scalars. Where the removal of comments fuses no tokens, blanking the comments out
respaces the text that removing them leaves. The removal of commas keeps this: it looks at the
next character that is not blank, and what moves together when a comma goes is a bracket or a
blank, and so no part of a scalar.

A form feed counts as a blank where commas are removed but not where tokens are read, so the
tokens of the two plain texts need not be the same. As no scalar contains it, the plain texts are
still respaced, which is all that reading depends on.
-/

namespace Parlance.Json

/-- The second text is the first with blanks put into it, none of them inside of a literal or
between two characters of scalars. -/
inductive Respaced : List Char → List Char → Prop where
  | same (text : List Char) : Respaced text text
  | blank {c : Char} {text spaced : List Char} (space : isSpace c)
    (rest : Respaced text spaced) : Respaced text (c :: spaced)
  | character {c : Char} {text spaced : List Char} (unquoted : c ≠ '"')
    (rest : Respaced text spaced)
    (whole : isScalarChar c → ∀ d ∈ text.head?, isScalarChar d → spaced.head? = some d) :
    Respaced (c :: text) (c :: spaced)
  | literal {body text spaced : List Char} (enclosed : Enclosed body)
    (rest : Respaced text spaced) :
    Respaced ('"' :: (body ++ '"' :: text)) ('"' :: (body ++ '"' :: spaced))

/-- A character that is in no scalar may get blanks behind it. -/
theorem Respaced.apart {c : Char} {text spaced : List Char} (unquoted : c ≠ '"')
    (other : isScalarChar c = false) (rest : Respaced text spaced) :
    Respaced (c :: text) (c :: spaced) :=
  .character unquoted rest fun scalar => absurd scalar (by simp [other])

/-! ## Comments blanked out -/

/-- A literal is closed, or it takes everything. By induction over the way to the closing quote,
which is the first one that is not escaped. -/
theorem throughQuote_closed_or (text : List Char) :
    (∃ body, Enclosed body ∧ (throughQuote text).1 = body ++ ['"']) ∨
      (throughQuote text).2 = [] := by
  fun_induction throughQuote text with
  | case1 => exact .inr rfl
  | case2 rest => exact .inl ⟨[], .nil, rfl⟩
  | case3 c rest inductionHypothesis =>
    rcases inductionHypothesis with ⟨body, enclosed, closed⟩ | open'
    · exact .inl ⟨'\\' :: c :: body, .escaped enclosed, by rw [closed]; rfl⟩
    · exact .inr open'
  | case4 c rest unquoted unescaped inductionHypothesis =>
    rcases inductionHypothesis with ⟨body, enclosed, closed⟩ | open'
    · by_cases backslash : c = '\\'
      · cases rest with
        | nil => exact .inr rfl
        | cons d more => exact (unescaped d more backslash rfl).elim
      · exact .inl ⟨c :: body, .character unquoted backslash enclosed, by rw [closed]; rfl⟩
    · exact .inr open'

/-- A comment leaves its newlines or as many blanks as it has characters. The latter are the former
with blanks put between them. -/
theorem Respaced.comment {text spaced : List Char} (comment : List Char)
    (rest : Respaced text spaced) :
    Respaced (newlinesOf comment ++ text) (blanksOf comment ++ spaced) := by
  induction comment with
  | nil => exact rest
  | cons c others inductionHypothesis =>
    by_cases newline : c = '\n'
    · subst newline
      exact .apart (by decide) (by decide) inductionHypothesis
    · rw [newlinesOf, List.filter_cons_of_neg (by simpa using newline), blanksOf, List.map_cons,
        if_neg newline]
      exact .blank rfl inductionHypothesis

/-- Where no tokens run together, blanking comments out puts blanks into the text that their
removal leaves. -/
theorem respaced_of_not_fuses {text : List Char} (apart : ¬ Fuses text) :
    Respaced (stripComments text) (blankComments text) := by
  rw [stripComments_eq]
  unfold blankComments
  unfold Fuses at apart
  fun_induction fragments text with
  | case1 =>
    rw [replaceComments_nil, replaceComments_nil]
    exact .same []
  | case2 rest inductionHypothesis =>
    rw [fusesIn_literal_iff] at apart
    rw [replaceComments_quote, replaceComments_quote]
    rcases throughQuote_closed_or rest with ⟨body, enclosed, closed⟩ | ends
    · simp only [closed, List.append_assoc, List.singleton_append]
      exact .literal enclosed (inductionHypothesis apart)
    · rw [replaceComments_eq_nil newlinesOf ends, replaceComments_eq_nil blanksOf ends]
      exact .same _
  | case3 rest inductionHypothesis =>
    rw [fusesIn_comment_iff] at apart
    rw [replaceComments_line, replaceComments_line]
    exact (inductionHypothesis apart).comment _
  | case4 rest inductionHypothesis =>
    rw [fusesIn_comment_iff] at apart
    rw [replaceComments_block, replaceComments_block]
    exact (inductionHypothesis apart).comment _
  | case5 c rest unquoted slashes starred inductionHypothesis =>
    have later := inductionHypothesis fun fuses => apart (.later fuses)
    rw [replaceComments_cons newlinesOf unquoted slashes starred,
      replaceComments_cons blanksOf unquoted slashes starred]
    refine .character unquoted later fun scalar d first next => ?_
    have continues : Continues (fragments rest) := by
      rw [← isRun_stripped_iff, isRun, Option.mem_def.mp first]
      exact isRunChar_of_isScalarChar next
    have begins (left : List Char → List Char) {e : Char} {parts : List Fragment}
        (read : fragments rest = .character e :: parts) :
        (replaceComments left rest).head? = some e := by
      rw [replaceComments, read]
      rfl
    cases read : fragments rest with
    | nil =>
      rw [read] at continues
      cases continues
    | cons part parts =>
      rw [read] at continues apart
      cases continues with
      | character _ => rw [begins blanksOf read, ← begins newlinesOf read, first]
      | comment inLine behind =>
        exact absurd (.here (isRunChar_of_isScalarChar scalar) inLine behind) apart

/-! ## Commas before closing brackets -/

/-- The next character that is not blank is the same. By induction over the respacing, where blanks
are skipped on both sides. -/
theorem Respaced.closesNext_eq {text spaced : List Char} (respaced : Respaced text spaced) :
    closesNext text = closesNext spaced := by
  induction respaced with
  | same text => rfl
  | blank space _ inductionHypothesis =>
    rw [closesNext_cons_of_isSpacing (isSpacing_of_isSpace space), inductionHypothesis]
  | @character c _ _ _ _ _ inductionHypothesis =>
    by_cases spacing : isSpacing c
    · rw [closesNext_cons_of_isSpacing spacing, closesNext_cons_of_isSpacing spacing,
        inductionHypothesis]
    · have visible : isSpacing c = false := by simpa using spacing
      rw [closesNext_cons visible, closesNext_cons visible]
  | literal _ _ _ => rw [closesNext_cons (by decide), closesNext_cons (by decide)]

/-- What follows a comma that goes is a blank or a bracket, and so no part of a scalar. Neither is
changed by the removal of commas, so each is what the text begins with afterwards. -/
theorem unpadded_head_of_closesNext {text : List Char} (closes : closesNext text) :
    ∀ d ∈ (unpadded false text).head?, isScalarChar d = false := by
  intro d first
  cases text with
  | nil => cases closes
  | cons c rest =>
    have plain : c ≠ '"' ∧ c ≠ ',' ∧ isScalarChar c = false := by
      by_cases spacing : isSpacing c
      · exact ⟨ne_of_class spacing '"' (by decide), ne_of_class spacing ',' (by decide),
          (class_of_isSpacing spacing).2⟩
      · have bracket : c = ']' ∨ c = '\x7d' := by
          rw [closesNext_cons (by simpa using spacing)] at closes
          simpa [isClosing] using closes
        rcases bracket with rfl | rfl <;> decide
    obtain ⟨unquoted, other, unscalar⟩ := plain
    rw [unpadded_code_cons unquoted other] at first
    cases first
    exact unscalar

/-- A text that begins with part of a scalar when its commas are removed, begins with it
before. -/
theorem head?_of_unpadded {text : List Char} {d : Char} (first : d ∈ (unpadded false text).head?)
    (scalar : isScalarChar d) : text.head? = some d := by
  cases text with
  | nil => cases first
  | cons c rest =>
    by_cases quote : c = '"'
    · subst quote
      rw [unpadded] at first
      cases first
      exact absurd scalar (by decide)
    · by_cases comma : c = ','
      · subst comma
        rw [unpadded] at first
        split at first
        · rename_i closes
          exact absurd scalar (by simp [unpadded_head_of_closesNext closes d first])
        · cases first
          exact absurd scalar (by decide)
      · rw [unpadded_code_cons quote comma] at first
        exact first

/-- Removing the commas before closing brackets leaves texts that differ in blanks only. By
induction over the respacing. Whether a comma goes depends on the next character that is not blank,
and that is the same in both texts. -/
theorem Respaced.stripTrailingCommas {text spaced : List Char} (respaced : Respaced text spaced) :
    Respaced (stripTrailingCommas text) (stripTrailingCommas spaced) := by
  unfold Json.stripTrailingCommas
  induction respaced with
  | same text => exact .same _
  | blank space _ inductionHypothesis =>
    rw [unpadded_code_cons (ne_of_class space '"' (by decide))
      (ne_of_class space ',' (by decide))]
    exact .blank space inductionHypothesis
  | @character c text spaced unquoted rest whole inductionHypothesis =>
    by_cases comma : c = ','
    · subst comma
      rw [unpadded, unpadded, rest.closesNext_eq]
      split
      · exact inductionHypothesis
      · exact .apart unquoted (by decide) inductionHypothesis
    · rw [unpadded_code_cons unquoted comma, unpadded_code_cons unquoted comma]
      refine .character unquoted inductionHypothesis fun scalar d first next => ?_
      have begins := whole scalar d (head?_of_unpadded first next) next
      obtain ⟨more, rfl⟩ := List.head?_eq_some_iff.mp begins
      rw [unpadded_code_cons (ne_of_class next '"' (by decide))
        (ne_of_class next ',' (by decide))]
      rfl
  | @literal body text spaced enclosed _ inductionHypothesis =>
    rw [unpadded, unpadded, unpadded_copies.enclosed enclosed, unpadded_copies.enclosed enclosed]
    exact .literal enclosed inductionHypothesis

/-- The plain forms of a text and of the same text with its comments blanked out differ in blanks
only, when no tokens run together. -/
theorem respaced_plain {text : List Char} (apart : ¬ Fuses text) :
    Respaced (plain text) (plain (blankComments text)) := by
  have commentless : Commentless Zone.code.quoting (blankComments text) :=
    commentless_replaceComments (fun _ => isSpace_of_mem_blanksOf) text
  have unchanged : stripComments (blankComments text) = blankComments text :=
    commentless.uncommented_eq (.inl rfl)
  rw [plain, plain, unchanged]
  exact (respaced_of_not_fuses apart).stripTrailingCommas

end Parlance.Json
