import Parlance.Proofs.Json.Respacing
import Parlance.Proofs.Json.Scalars

/-!
# The next visible character

Two texts that differ in blanks have the same next visible character. If it begins a scalar, the
texts agree up to the end of the scalar, as no blanks are put between its characters. If it opens
a literal, they agree up to its closing quote, or in all that is left when there is none. Behind
any other character, and behind the scalar or literal, they differ in blanks again.
-/

namespace Parlance.Json

/-- Two texts that differ in blanks and begin with a visible character, if they are not empty. -/
inductive Visible : List Char → List Char → Prop where
  | nothing : Visible [] []
  | mark {c : Char} {text spaced : List Char} (visible : isSpace c = false) (unquoted : c ≠ '"')
    (other : isScalarChar c = false) (rest : Respaced text spaced) :
    Visible (c :: text) (c :: spaced)
  | scalar {c : Char} {run text spaced : List Char} (first : isScalarChar c)
    (others : ∀ d ∈ run, isScalarChar d) (ends : EndsScalar text) (endsSpaced : EndsScalar spaced)
    (rest : Respaced text spaced) : Visible (c :: (run ++ text)) (c :: (run ++ spaced))
  | literal {body text spaced : List Char} (enclosed : Enclosed body)
    (rest : Respaced text spaced) :
    Visible ('"' :: (body ++ '"' :: text)) ('"' :: (body ++ '"' :: spaced))
  | same (text : List Char) : Visible ('"' :: text) ('"' :: text)

/-- Blanks are not put in front of what continues a scalar, nor do they continue one. The spaced
text begins with a blank, or with the character that the other one begins with. -/
theorem Respaced.endsScalar {text spaced : List Char} (respaced : Respaced text spaced)
    (ends : EndsScalar text) : EndsScalar spaced := by
  intro d first
  cases respaced with
  | same => exact ends d first
  | blank space _ =>
    cases first
    by_contra scalar
    rw [isSpace_of_isScalarChar (by simpa using scalar)] at space
    cases space
  | character => exact ends d first
  | literal => exact ends d first

/-- What is left behind all characters of scalars does not continue a scalar. -/
theorem endsScalar_dropWhile (text : List Char) : EndsScalar (text.dropWhile isScalarChar) := by
  intro c first
  have stops := List.head?_dropWhile_not isScalarChar text
  rw [Option.mem_def.mp first] at stops
  simpa using stops

/-- The texts have the same characters up to the end of a scalar, and differ in blanks behind
it. -/
def ShareScalar (text spaced : List Char) : Prop :=
  ∃ run rest restSpaced, text = run ++ rest ∧ spaced = run ++ restSpaced ∧
    (∀ d ∈ run, isScalarChar d) ∧ EndsScalar rest ∧ Respaced rest restSpaced

/-- Where no scalar goes on, the common part of it is empty. -/
theorem shareScalar_of_ends {text spaced : List Char} (ends : EndsScalar text)
    (respaced : Respaced text spaced) : ShareScalar text spaced :=
  ⟨[], text, spaced, rfl, rfl, nofun, ends, respaced⟩

/-- Two texts that differ in blanks share the scalar at their beginning, when the second one begins
with it as well: blanks are put into no scalar. -/
theorem Respaced.shareScalar {text spaced : List Char} (respaced : Respaced text spaced)
    (joined : ∀ d ∈ text.head?, isScalarChar d → spaced.head? = some d) :
    ShareScalar text spaced := by
  induction respaced with
  | same text =>
    exact ⟨text.takeWhile isScalarChar, text.dropWhile isScalarChar, text.dropWhile isScalarChar,
      List.takeWhile_append_dropWhile.symm, List.takeWhile_append_dropWhile.symm,
      List.all_eq_true.mp List.all_takeWhile, endsScalar_dropWhile text, .same _⟩
  | blank space rest _ =>
    -- A blank was put in, so what is behind it continues no scalar.
    refine shareScalar_of_ends (fun d first => ?_) (.blank space rest)
    by_contra scalar
    have scalar : isScalarChar d := by simpa using scalar
    cases joined d first scalar
    rw [isSpace_of_isScalarChar scalar] at space
    cases space
  | @character c text spaced unquoted rest whole inductionHypothesis =>
    by_cases scalar : isScalarChar c
    · obtain ⟨run, left, right, rfl, rfl, scalars, ends, later⟩ :=
        inductionHypothesis (whole scalar)
      exact ⟨c :: run, left, right, rfl, rfl, List.forall_mem_cons.mpr ⟨scalar, scalars⟩, ends,
        later⟩
    · refine shareScalar_of_ends (fun d first => ?_) (.character unquoted rest whole)
      cases first
      simpa using scalar
  | literal enclosed rest =>
    refine shareScalar_of_ends (fun d first => ?_) (.literal enclosed rest)
    cases first
    rfl

/-- A run of scalars in front of texts that do not continue it. By induction over the run, whose
characters are all followed by the same ones in both texts. -/
theorem Respaced.run_append {run text spaced : List Char} (scalars : ∀ d ∈ run, isScalarChar d)
    (ends : EndsScalar text) (rest : Respaced text spaced) :
    Respaced (run ++ text) (run ++ spaced) := by
  induction run with
  | nil => exact rest
  | cons c others inductionHypothesis =>
    obtain ⟨first, more⟩ := List.forall_mem_cons.mp scalars
    refine .character (ne_of_class first '"' (by decide)) (inductionHypothesis more) ?_
    intro _ d next scalar
    cases others with
    | nil =>
      rw [ends d next] at scalar
      cases scalar
    | cons e _ => exact next

/-- A visible character in front of two texts that differ in blanks is a mark or the beginning of a
scalar, and the scalar is the same in both. -/
theorem Respaced.visible_of_cons {c : Char} {text spaced : List Char} (visible : isSpace c = false)
    (unquoted : c ≠ '"') (rest : Respaced text spaced)
    (whole : isScalarChar c → ∀ d ∈ text.head?, isScalarChar d → spaced.head? = some d) :
    Visible (c :: text) (c :: spaced) := by
  by_cases scalar : isScalarChar c
  · obtain ⟨run, left, right, rfl, rfl, scalars, ends, later⟩ := rest.shareScalar (whole scalar)
    exact .scalar scalar scalars ends (later.endsScalar ends) later
  · exact .mark visible unquoted (by simpa using scalar) rest

/-- A text behind its blanks begins with a visible character, the same as itself. By induction over
the blanks in front of it. -/
theorem visible_skipSpace_same (text : List Char) :
    Visible (skipSpace text) (skipSpace text) := by
  induction text with
  | nil => exact .nothing
  | cons c rest inductionHypothesis =>
    by_cases space : isSpace c
    · rw [skipSpace, List.dropWhile_cons_of_pos space]
      exact inductionHypothesis
    · have visible : isSpace c = false := by simpa using space
      rw [skipSpace_cons_of_visible visible]
      by_cases quote : c = '"'
      · subst quote
        exact .same rest
      · exact Respaced.visible_of_cons visible quote (.same rest) fun _ _ first _ => first

/-- A blank belongs to the leading blanks. -/
theorem skipSpace_cons_of_isSpace {c : Char} (space : isSpace c) (rest : List Char) :
    skipSpace (c :: rest) = skipSpace rest := List.dropWhile_cons_of_pos space

/-- Skipping blanks leads to the same visible character in two texts that differ in blanks. By
induction over the respacing, where blanks that are in one of the texts only are skipped there. -/
theorem Respaced.visible {text spaced : List Char} (respaced : Respaced text spaced) :
    Visible (skipSpace text) (skipSpace spaced) := by
  induction respaced with
  | same text => exact visible_skipSpace_same text
  | blank space _ inductionHypothesis =>
    rw [skipSpace_cons_of_isSpace space]
    exact inductionHypothesis
  | @character c text spaced unquoted rest whole inductionHypothesis =>
    by_cases space : isSpace c
    · rw [skipSpace_cons_of_isSpace space, skipSpace_cons_of_isSpace space]
      exact inductionHypothesis
    · have visible : isSpace c = false := by simpa using space
      rw [skipSpace_cons_of_visible visible, skipSpace_cons_of_visible visible]
      exact rest.visible_of_cons visible unquoted whole
  | literal enclosed rest =>
    rw [skipSpace_cons_of_visible (by decide), skipSpace_cons_of_visible (by decide)]
    exact .literal enclosed rest

/-- Two texts that begin with the same visible character still differ in blanks only. -/
theorem Visible.respaced {text spaced : List Char} (visible : Visible text spaced) :
    Respaced text spaced := by
  cases visible with
  | nothing => exact .same []
  | mark _ unquoted other rest => exact .apart unquoted other rest
  | scalar first others ends _ rest =>
    exact rest.run_append (List.forall_mem_cons.mpr ⟨first, others⟩) ends
  | literal enclosed rest => exact .literal enclosed rest
  | same text => exact .same _

/-- Behind a character that is in no scalar and opens no literal, two such texts differ in
blanks. -/
theorem Visible.rest {c : Char} {text spaced : List Char}
    (visible : Visible (c :: text) (c :: spaced)) (other : isScalarChar c = false)
    (unquoted : c ≠ '"') : Respaced text spaced := by
  cases visible with
  | mark _ _ _ rest => exact rest
  | scalar first _ _ _ _ => exact absurd first (by simp [other])
  | literal _ _ => exact absurd rfl unquoted
  | same text => exact .same text

/-- Behind leading blanks, either both texts are at their ends, or they begin with the same
character. -/
inductive Begins (text spaced : List Char) : Prop where
  | nothing (ends : skipSpace text = []) (endsSpaced : skipSpace spaced = [])
  | character (c : Char) (rest restSpaced : List Char) (begins : skipSpace text = c :: rest)
    (beginsSpaced : skipSpace spaced = c :: restSpaced)
    (visible : Visible (c :: rest) (c :: restSpaced)) (shorter : rest.length < text.length)
    (shorterSpaced : restSpaced.length < spaced.length)

/-- Passing over blanks leaves no more text than there was. -/
theorem length_skipSpace_le (text : List Char) : (skipSpace text).length ≤ text.length :=
  (List.dropWhile_suffix isSpace).length_le

/-- Two texts that differ in blanks begin with the same character behind their leading blanks, or
both have nothing but blanks. -/
theorem Respaced.begins {text spaced : List Char} (respaced : Respaced text spaced) :
    Begins text spaced := by
  have visible := respaced.visible
  have within := length_skipSpace_le text
  have withinSpaced := length_skipSpace_le spaced
  have character {c : Char} {rest restSpaced : List Char} (begins : skipSpace text = c :: rest)
      (beginsSpaced : skipSpace spaced = c :: restSpaced) : Begins text spaced := by
    rw [begins] at within visible
    rw [beginsSpaced] at withinSpaced visible
    exact .character c rest restSpaced begins beginsSpaced visible within withinSpaced
  generalize first : skipSpace text = left, second : skipSpace spaced = right at visible
  cases visible with
  | nothing => exact .nothing first second
  | mark _ _ _ _ => exact character first second
  | scalar _ _ _ _ _ => exact character first second
  | literal _ _ => exact character first second
  | same text => exact character first second

end Parlance.Json
