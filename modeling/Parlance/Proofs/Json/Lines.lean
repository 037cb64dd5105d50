import Mathlib.Data.List.Forall2
import Parlance.Proofs.Json.Fragments

/-!
# Plain text keeps lines and literals

Making a text plain only leaves characters out, and never a newline. Each line of the result is
therefore the line of the same number with characters left out, whatever the text is, and a line
number that is found in the result is one of the text.

What is left out is never part of a string literal outside of comments. The removal of comments
copies such a literal, and no other text becomes one. The removal of commas goes through the
literals that are then left in the same way, to their closing quotes or to the end of the text.
-/

namespace Parlance.Json

/-! ## Leaving characters out -/

/-- The text with some characters left out, none of them a newline. -/
inductive Thinned : List Char → List Char → Prop where
  | nil : Thinned [] []
  | keep {c : Char} {thin text : List Char} (rest : Thinned thin text) :
    Thinned (c :: thin) (c :: text)
  | leave {c : Char} {thin text : List Char} (inLine : c ≠ '\n') (rest : Thinned thin text) :
    Thinned thin (c :: text)

/-- Nothing has to be left out. -/
theorem Thinned.refl (text : List Char) : Thinned text text := by
  induction text with
  | nil => exact .nil
  | cons c rest inductionHypothesis => exact .keep inductionHypothesis

/-- Leaving characters out twice is leaving characters out. -/
theorem Thinned.trans {thinner thin text : List Char} (first : Thinned thinner thin)
    (second : Thinned thin text) : Thinned thinner text := by
  induction second generalizing thinner with
  | nil => exact first
  | keep rest inductionHypothesis =>
    cases first with
    | keep others => exact .keep (inductionHypothesis others)
    | leave inLine others => exact .leave inLine (inductionHypothesis others)
  | leave inLine rest inductionHypothesis => exact .leave inLine (inductionHypothesis first)

/-- Characters may be left out of two texts in a row, one after the other. -/
theorem Thinned.append {thin text behind others : List Char} (first : Thinned thin text)
    (second : Thinned behind others) : Thinned (thin ++ behind) (text ++ others) := by
  induction first with
  | nil => exact second
  | keep _ inductionHypothesis => exact .keep inductionHypothesis
  | leave inLine _ inductionHypothesis => exact .leave inLine inductionHypothesis

/-- Of a comment only its newlines are kept, and none of them is left out. -/
theorem thinned_newlinesOf (comment : List Char) : Thinned (newlinesOf comment) comment := by
  induction comment with
  | nil => exact .nil
  | cons c rest inductionHypothesis =>
    by_cases newline : c = '\n'
    · rw [newlinesOf, List.filter_cons_of_pos (by simpa using newline)]
      exact .keep inductionHypothesis
    · rw [newlinesOf, List.filter_cons_of_neg (by simpa using newline)]
      exact .leave newline inductionHypothesis

/-- The newlines are as many as before, as none is left out. -/
theorem Thinned.count_newline {thin text : List Char} (thinned : Thinned thin text) :
    thin.count '\n' = text.count '\n' := by
  induction thinned with
  | nil => rfl
  | keep _ inductionHypothesis => rw [List.count_cons, List.count_cons, inductionHypothesis]
  | leave inLine _ inductionHypothesis => rw [List.count_cons_of_ne inLine, inductionHypothesis]

/-- The lines of a text. A newline ends a line, and the last line has none. -/
def lines (text : List Char) : List (List Char) := text.splitOn '\n'

/-- A newline at the beginning ends an empty first line. -/
theorem lines_newline (rest : List Char) : lines ('\n' :: rest) = [] :: lines rest := by
  rw [lines, List.splitOn, List.splitOnP_cons_eq_if_modifyHead, if_pos (by decide)]
  rfl

/-- A character that is no newline belongs to the first line. -/
theorem lines_cons {c : Char} (inLine : c ≠ '\n') (rest : List Char) :
    ∃ line others, lines rest = line :: others ∧ lines (c :: rest) = (c :: line) :: others := by
  obtain ⟨line, others, split⟩ := List.exists_cons_of_ne_nil (List.splitOn_ne_nil '\n' rest)
  refine ⟨line, others, split, ?_⟩
  rw [lines, List.splitOn, List.splitOnP_cons_eq_if_modifyHead, if_neg (by simpa using inLine)]
  rw [List.splitOn] at split
  rw [split, List.modifyHead_cons]

/-- Line by line, characters were left out. By induction over the thinned text. Newlines are
kept, so both texts go on to the next line at once, and whatever else is left out is left out of
one line. -/
theorem Thinned.forall₂_lines {thin text : List Char} (thinned : Thinned thin text) :
    List.Forall₂ List.Sublist (lines thin) (lines text) := by
  induction thinned with
  | nil => exact .cons .slnil .nil
  | @keep c thin text _ inductionHypothesis =>
    by_cases newline : c = '\n'
    · subst newline
      rw [lines_newline, lines_newline]
      exact .cons .slnil inductionHypothesis
    · obtain ⟨line, others, split, extended⟩ := lines_cons newline thin
      obtain ⟨fullLine, fullOthers, fullSplit, fullExtended⟩ := lines_cons newline text
      rw [split, fullSplit] at inductionHypothesis
      rw [extended, fullExtended]
      cases inductionHypothesis with
      | cons first more => exact .cons (first.cons_cons c) more
  | @leave c thin text inLine _ inductionHypothesis =>
    obtain ⟨line, others, split, extended⟩ := lines_cons inLine text
    rw [split] at inductionHypothesis
    obtain ⟨thinLine, thinOthers, first, more, thinSplit⟩ :=
      List.forall₂_cons_right_iff.mp inductionHypothesis
    rw [extended, thinSplit]
    exact .cons (first.cons c) more

/-! ## What the two removals leave out -/

/-- Removing comments leaves characters out and no newlines: each comment is replaced by its
newlines, and all other fragments are written as they are. -/
theorem stripComments_thinned (text : List Char) : Thinned (stripComments text) text := by
  have fragment (part : Fragment) :
      Thinned (part.replaced newlinesOf) (part.replaced id) := by
    cases part with
    | character c => exact .refl [c]
    | literal text => exact .refl text
    | comment text => exact thinned_newlinesOf text
  have whole (parts : List Fragment) :
      Thinned (parts.flatMap (Fragment.replaced newlinesOf))
        (parts.flatMap (Fragment.replaced id)) := by
    induction parts with
    | nil => exact .nil
    | cons part others inductionHypothesis => exact (fragment part).append inductionHypothesis
  have thinned := whole (fragments text)
  rwa [← replaceComments, ← replaceComments, replaceComments_id, ← stripComments_eq] at thinned

/-- Removing commas leaves characters out and no newlines, since commas are all that is left out. -/
theorem unpadded_thinned (quoting : Bool) (text : List Char) :
    Thinned (unpadded quoting text) text := by
  fun_induction unpadded quoting text with
  | case1 => exact .nil
  | case2 rest inductionHypothesis => exact .keep inductionHypothesis
  | case3 c rest inductionHypothesis => exact .keep (.keep inductionHypothesis)
  | case4 c rest _ _ inductionHypothesis => exact .keep inductionHypothesis
  | case5 rest inductionHypothesis => exact .keep inductionHypothesis
  | case6 rest _ inductionHypothesis => exact .leave (by decide) inductionHypothesis
  | case7 rest _ inductionHypothesis => exact .keep inductionHypothesis
  | case8 c rest _ _ inductionHypothesis => exact .keep inductionHypothesis

/-- A literal is copied. By induction over the way to its closing quote, where an escaped quote is
passed. -/
theorem unpadded_literal_eq (text : List Char) :
    unpadded true text = (throughQuote text).1 ++ unpadded false (throughQuote text).2 := by
  fun_induction throughQuote text with
  | case1 => rfl
  | case2 rest => rw [unpadded, List.singleton_append]
  | case3 c rest inductionHypothesis =>
    rw [unpadded, inductionHypothesis]
    rfl
  | case4 c rest unquoted unescaped inductionHypothesis =>
    rw [unpadded, inductionHypothesis]
    · rfl
    · exact unquoted
    · exact unescaped

/-- Commas that go are in no literal, and no literal is lost or formed. The induction is over the
text as its literals divide it: a comma outside is kept or goes, and a literal is copied to its
closing quote. -/
theorem quoted_stripTrailingCommas (text : List Char) :
    quoted (stripTrailingCommas text) = quoted text := by
  have opened (rest : List Char) (ends : rest = []) : unpadded false rest = [] := by
    rw [ends]
    rfl
  unfold stripTrailingCommas
  induction text using quoted.induct with
  | case1 => rfl
  | case2 rest inductionHypothesis =>
    rw [unpadded, unpadded_literal_eq, quoted, throughQuote_append (opened _), quoted,
      inductionHypothesis]
  | case3 c rest unquoted inductionHypothesis =>
    rw [quoted_cons_of_ne unquoted]
    by_cases comma : c = ','
    · subst comma
      rw [unpadded]
      split
      · exact inductionHypothesis
      · rw [quoted_cons_of_ne unquoted, inductionHypothesis]
    · rw [unpadded_code_cons unquoted comma, quoted_cons_of_ne unquoted, inductionHypothesis]

/-- Whatever the text, its plain form has as many newlines, each of its lines is the line of the
same number with characters left out, and its string literals are those of the text that are in
no comment, as they were written and in the same order. -/
theorem plain_faithful (text : List Char) :
    (plain text).count '\n' = text.count '\n' ∧
      List.Forall₂ List.Sublist (lines (plain text)) (lines text) ∧
      quoted (plain text) = literals text := by
  have thinned : Thinned (plain text) text :=
    (unpadded_thinned false (stripComments text)).trans (stripComments_thinned text)
  refine ⟨thinned.count_newline, thinned.forall₂_lines, ?_⟩
  rw [plain, quoted_stripTrailingCommas, stripComments_eq,
    quoted_replaceComments fun _ => isSpace_of_mem_newlinesOf]

end Parlance.Json
