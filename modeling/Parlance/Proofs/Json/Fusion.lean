import Parlance.Proofs.Json.Fragments

/-!
# Where tokens run together

A comment that is read as a blank parts the tokens around it. The removal of comments leaves of a
comment only its newlines, so a comment with a newline parts them too, and a line comment does
with the newline behind it. Punctuation marks and literals are tokens of their own whatever stands
next to them. What is left are comments without newlines between two characters of runs: these
become one run.

This is the only way in which the tokens of a text can come out differently, and it does change
them whenever it occurs. The tokens are read off the text by characters, with the longest
possible runs, so what matters of the text behind a run is only whether it begins with a
character that would continue it.
-/

namespace Parlance.Json

/-- The comment with a blank for each of its characters but newlines. -/
def blanksOf (comment : List Char) : List Char := comment.map fun c => if c = '\n' then c else ' '

/-- The text with its comments blanked out. -/
def blankComments (text : List Char) : List Char := replaceComments blanksOf text

/-- What a comment that is blanked out leaves is blank. -/
theorem isSpace_of_mem_blanksOf {comment : List Char} : ∀ c ∈ blanksOf comment, isSpace c := by
  intro c member
  obtain ⟨d, _, rfl⟩ := List.mem_map.mp member
  split
  · rename_i newline
    rw [newline]
    rfl
  · rfl

/-- Behind comments without newlines, if there are any, stands a character of a run. -/
inductive Continues : List Fragment → Prop where
  | character {c : Char} {parts : List Fragment} (run : isRunChar c) :
    Continues (.character c :: parts)
  | comment {comment : List Char} {parts : List Fragment} (inLine : '\n' ∉ comment)
    (behind : Continues parts) : Continues (.comment comment :: parts)

/-- Somewhere there are two characters of runs with nothing but comments without newlines between
them, one or more. -/
inductive FusesIn : List Fragment → Prop where
  | here {c : Char} {comment : List Char} {parts : List Fragment} (run : isRunChar c)
    (inLine : '\n' ∉ comment) (behind : Continues parts) :
    FusesIn (.character c :: .comment comment :: parts)
  | later {part : Fragment} {parts : List Fragment} (fuses : FusesIn parts) :
    FusesIn (part :: parts)

/-- Two runs of the text become one when its comments are removed. -/
def Fuses (text : List Char) : Prop := FusesIn (fragments text)

/-! ## Tokens, character by character -/

/-- Blanks in front of a text change nothing about its tokens. -/
theorem lexemes_blanks {blanks : List Char} (blank : ∀ c ∈ blanks, isSpace c)
    (behind : List Char) : lexemes (blanks ++ behind) = lexemes behind := by
  induction blanks with
  | nil => rfl
  | cons c others inductionHypothesis =>
    obtain ⟨space, spaces⟩ := List.forall_mem_cons.mp blank
    rw [List.cons_append, lexemes, if_pos space, inductionHypothesis spaces]

/-- A mark is a token of its own, whatever follows it. -/
theorem lexemes_mark {c : Char} (marks : isMark c) (rest : List Char) :
    lexemes (c :: rest) = [c] :: lexemes rest := by
  rw [lexemes, if_neg (by simp [isSpace_of_isMark marks]), if_pos marks]

/-- A literal with its quotes is one token. One that is not closed has nothing behind it. -/
theorem lexemes_literal {text behind : List Char}
    (ends : (throughQuote text).2 = [] → behind = []) :
    lexemes ('"' :: ((throughQuote text).1 ++ behind)) =
      ('"' :: (throughQuote text).1) :: lexemes behind := by
  rw [lexemes, if_neg (by decide), if_neg (by decide), if_pos rfl, throughQuote_append ends]

/-- A run is one token up to the first character that is no part of runs. -/
theorem lexemes_run {c : Char} (run : isRunChar c) (rest : List Char) :
    lexemes (c :: rest) =
      (c :: rest.takeWhile isRunChar) :: lexemes (rest.dropWhile isRunChar) := by
  simp only [isRunChar, Bool.and_eq_true, Bool.not_eq_true', decide_eq_true_eq] at run
  obtain ⟨⟨space, mark⟩, quote⟩ := run
  rw [lexemes, if_neg (by simp [space]), if_neg (by simp [mark]), if_neg quote]

/-- A run in front of a text that continues it becomes part of its first token. The token grows by
that character in front and stays one token. -/
theorem lexemes_run_continued {c : Char} (run : isRunChar c) {rest : List Char}
    (continued : isRun rest) :
    ∃ token tokens, token ≠ [] ∧ lexemes rest = token :: tokens ∧
      lexemes (c :: rest) = (c :: token) :: tokens := by
  cases rest with
  | nil => simp [isRun] at continued
  | cons d more =>
    have next : isRunChar d := by simpa [isRun] using continued
    refine ⟨d :: more.takeWhile isRunChar, _, List.cons_ne_nil _ _, lexemes_run next more, ?_⟩
    rw [lexemes_run run, List.takeWhile_cons_of_pos next, List.dropWhile_cons_of_pos next]

/-- A run in front of a text that does not continue it is a token of its own. -/
theorem lexemes_run_ended {c : Char} (run : isRunChar c) {rest : List Char}
    (ended : isRun rest = false) : lexemes (c :: rest) = [c] :: lexemes rest := by
  rw [lexemes_run run]
  cases rest with
  | nil => rfl
  | cons d more =>
    have other : isRunChar d = false := by simpa [isRun] using ended
    rw [List.takeWhile_cons_of_neg (by simp [other]), List.dropWhile_cons_of_neg (by simp [other])]

/-- A run in front of two texts makes no difference when both continue it or neither does. Where
both continue it, the first tokens grow alike; where neither does, it is a token of its own in front
of both. -/
theorem lexemes_run_inj {c : Char} (run : isRunChar c) {first second : List Char}
    (alike : isRun first = isRun second) :
    lexemes (c :: first) = lexemes (c :: second) ↔ lexemes first = lexemes second := by
  cases continued : isRun first with
  | true =>
    obtain ⟨token, tokens, _, firstRead, firstFused⟩ := lexemes_run_continued run continued
    obtain ⟨other, others, _, secondRead, secondFused⟩ :=
      lexemes_run_continued run (alike ▸ continued)
    rw [firstRead, secondRead, firstFused, secondFused]
    simp
  | false =>
    rw [lexemes_run_ended run continued, lexemes_run_ended run (alike ▸ continued)]
    simp

/-- A run that goes on is another token than the same run that ends, since its characters are
counted. -/
theorem lexemes_run_ne {c : Char} (run : isRunChar c) {first second : List Char}
    (continued : isRun first) (ended : isRun second = false) :
    lexemes (c :: first) ≠ lexemes (c :: second) := by
  obtain ⟨token, tokens, filled, _, fused⟩ := lexemes_run_continued run continued
  rw [fused, lexemes_run_ended run ended]
  intro same
  obtain ⟨sameToken, _⟩ := List.cons.inj same
  exact filled (List.cons.inj sameToken).2

/-! ## What continues a run -/

/-- What begins with a blank does not continue a run. -/
theorem isRun_blanks {blanks : List Char} (blank : ∀ c ∈ blanks, isSpace c) (filled : blanks ≠ [])
    (behind : List Char) : isRun (blanks ++ behind) = false := by
  cases blanks with
  | nil => exact absurd rfl filled
  | cons c others =>
    have space := blank c List.mem_cons_self
    simp [isRun, isRunChar, space]

/-- A comment leaves at least one blank where it is blanked out. -/
theorem blanksOf_cons_ne_nil (c : Char) (rest : List Char) : blanksOf (c :: rest) ≠ [] :=
  List.cons_ne_nil _ _

/-- A comment without newlines leaves nothing. -/
theorem newlinesOf_eq_nil {comment : List Char} (inLine : '\n' ∉ comment) :
    newlinesOf comment = [] := by
  refine List.filter_eq_nil_iff.mpr fun c member => ?_
  have different : c ≠ '\n' := by
    rintro rfl
    exact inLine member
  simpa using different

/-- A comment with a newline leaves something. -/
theorem newlinesOf_ne_nil {comment : List Char} (broken : '\n' ∈ comment) :
    newlinesOf comment ≠ [] :=
  List.ne_nil_of_mem (List.mem_filter.mpr ⟨broken, by decide⟩)

/-- What is left behind a comment continues a run exactly when the comment has no newline and
what is behind it does. -/
theorem isRun_newlinesOf_iff (comment behind : List Char) :
    isRun (newlinesOf comment ++ behind) ↔ '\n' ∉ comment ∧ isRun behind := by
  by_cases broken : '\n' ∈ comment
  · have ended := isRun_blanks isSpace_of_mem_newlinesOf (newlinesOf_ne_nil broken) behind
    simp [ended, broken]
  · rw [newlinesOf_eq_nil broken, List.nil_append]
    simp [broken]

/-- Behind a run, a removed comment lets the run go on when it has no newline and what follows it
lets the run go on. -/
theorem continues_comment_iff {comment : List Char} {parts : List Fragment} :
    Continues (.comment comment :: parts) ↔ '\n' ∉ comment ∧ Continues parts := by
  constructor
  · intro continues
    cases continues with
    | comment inLine behind => exact ⟨inLine, behind⟩
  · rintro ⟨inLine, behind⟩
    exact .comment inLine behind

/-- Without its comments, a text continues a run exactly when its first character that is left
does. -/
theorem isRun_stripped_iff (text : List Char) :
    isRun (replaceComments newlinesOf text) ↔ Continues (fragments text) := by
  fun_induction fragments text with
  | case1 =>
    rw [replaceComments_nil]
    refine iff_of_false (by simp [isRun]) fun continues => ?_
    cases continues
  | case2 rest _ =>
    rw [replaceComments_quote]
    refine iff_of_false (by simp [isRun, isRunChar]) fun continues => ?_
    cases continues
  | case3 rest inductionHypothesis =>
    rw [replaceComments_line, isRun_newlinesOf_iff, inductionHypothesis, continues_comment_iff]
  | case4 rest inductionHypothesis =>
    rw [replaceComments_block, isRun_newlinesOf_iff, inductionHypothesis, continues_comment_iff]
  | case5 c rest unquoted slashes starred _ =>
    rw [replaceComments_cons newlinesOf unquoted slashes starred]
    constructor
    · intro run
      exact .character (by simpa [isRun] using run)
    · rintro (run | _)
      simpa [isRun] using run

/-- With its comments blanked out, a text continues a run exactly when it begins with a character
that does. -/
theorem isRun_blanked_iff (text : List Char) :
    isRun (replaceComments blanksOf text) ↔
      ∃ c parts, fragments text = .character c :: parts ∧ isRunChar c := by
  fun_induction fragments text with
  | case1 =>
    rw [replaceComments_nil]
    simp [isRun]
  | case2 rest _ =>
    rw [replaceComments_quote]
    simp [isRun, isRunChar]
  | case3 rest _ =>
    rw [replaceComments_line, isRun_blanks isSpace_of_mem_blanksOf (blanksOf_cons_ne_nil _ _)]
    simp
  | case4 rest _ =>
    rw [replaceComments_block, isRun_blanks isSpace_of_mem_blanksOf (blanksOf_cons_ne_nil _ _)]
    simp
  | case5 c rest unquoted slashes starred _ =>
    rw [replaceComments_cons blanksOf unquoted slashes starred]
    simp [isRun]

/-! ## The tokens of a text without its comments -/

/-- A literal is no run, so that two runs fuse behind it or not at all. -/
theorem fusesIn_literal_iff {text : List Char} {parts : List Fragment} :
    FusesIn (.literal text :: parts) ↔ FusesIn parts := by
  constructor
  · rintro (_ | fuses)
    assumption
  · exact .later

/-- A comment in front is in no run, so that two runs fuse behind it or not at all. -/
theorem fusesIn_comment_iff {comment : List Char} {parts : List Fragment} :
    FusesIn (.comment comment :: parts) ↔ FusesIn parts := by
  constructor
  · rintro (_ | fuses)
    assumption
  · exact .later

/-- A character is not the first of two that run together, unless it belongs to a run and a
comment is next to it, behind which the run continues. -/
theorem fusesIn_character_iff {c : Char} {parts : List Fragment}
    (apart : isRunChar c → Continues parts → ∃ d others, parts = .character d :: others) :
    FusesIn (.character c :: parts) ↔ FusesIn parts := by
  constructor
  · intro fuses
    cases fuses with
    | later fuses => exact fuses
    | here run inLine behind =>
      obtain ⟨d, others, begins⟩ := apart run (.comment inLine behind)
      cases begins
  · exact .later

/-- Removing the comments of a text leaves the tokens that it has with its comments read as
blanks, exactly when no two runs of it become one. -/
theorem lexemes_stripComments_iff (text : List Char) :
    lexemes (stripComments text) = lexemes (blankComments text) ↔ ¬ Fuses text := by
  rw [stripComments_eq]
  unfold blankComments Fuses
  fun_induction fragments text with
  | case1 =>
    rw [replaceComments_nil, replaceComments_nil]
    refine iff_of_true rfl fun fuses => ?_
    cases fuses
  | case2 rest inductionHypothesis =>
    rw [replaceComments_quote, replaceComments_quote, fusesIn_literal_iff,
      lexemes_literal (replaceComments_eq_nil newlinesOf),
      lexemes_literal (replaceComments_eq_nil blanksOf), ← inductionHypothesis]
    simp
  | case3 rest inductionHypothesis =>
    rw [replaceComments_line, replaceComments_line, fusesIn_comment_iff,
      lexemes_blanks isSpace_of_mem_newlinesOf, lexemes_blanks isSpace_of_mem_blanksOf,
      inductionHypothesis]
  | case4 rest inductionHypothesis =>
    rw [replaceComments_block, replaceComments_block, fusesIn_comment_iff,
      lexemes_blanks isSpace_of_mem_newlinesOf, lexemes_blanks isSpace_of_mem_blanksOf,
      inductionHypothesis]
  | case5 c rest unquoted slashes starred inductionHypothesis =>
    rw [replaceComments_cons newlinesOf unquoted slashes starred,
      replaceComments_cons blanksOf unquoted slashes starred]
    by_cases run : isRunChar c
    · by_cases blanked : isRun (replaceComments blanksOf rest)
      · obtain ⟨d, parts, begins, next⟩ := (isRun_blanked_iff rest).mp blanked
        have stripped : isRun (replaceComments newlinesOf rest) := by
          rw [isRun_stripped_iff, begins]
          exact .character next
        rw [lexemes_run_inj run (stripped.trans blanked.symm), inductionHypothesis,
          fusesIn_character_iff fun _ _ => ⟨d, parts, begins⟩]
      · have ended : isRun (replaceComments blanksOf rest) = false := by simpa using blanked
        by_cases stripped : isRun (replaceComments newlinesOf rest)
        · -- What is between the two runs is removed, and blanked out it would part them.
          have continues := (isRun_stripped_iff rest).mp stripped
          have fuses : FusesIn (.character c :: fragments rest) := by
            cases begins : fragments rest with
            | nil =>
              rw [begins] at continues
              cases continues
            | cons part parts =>
              rw [begins] at continues
              cases continues with
              | @character d _ next =>
                exact absurd ((isRun_blanked_iff rest).mpr ⟨d, parts, begins, next⟩) blanked
              | comment inLine behind => exact .here run inLine behind
          exact iff_of_false (lexemes_run_ne run stripped ended) (fun apart => apart fuses)
        · have alike : isRun (replaceComments newlinesOf rest) =
              isRun (replaceComments blanksOf rest) := by
            rw [ended]
            simpa using stripped
          rw [lexemes_run_inj run alike, inductionHypothesis,
            fusesIn_character_iff fun _ continues =>
              absurd ((isRun_stripped_iff rest).mpr continues) stripped]
    · rw [fusesIn_character_iff fun member => absurd member run]
      by_cases space : isSpace c
      · have blank : ∀ d ∈ [c], isSpace d := List.forall_mem_singleton.mpr space
        rw [← List.singleton_append, lexemes_blanks blank, ← List.singleton_append,
          lexemes_blanks blank, inductionHypothesis]
      · have marks : isMark c := by
          have other : c ≠ '"' := unquoted
          simpa [isRunChar, space, other] using run
        rw [lexemes_mark marks, lexemes_mark marks, ← inductionHypothesis]
        simp

end Parlance.Json
