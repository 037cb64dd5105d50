import Mathlib.Data.List.Basic
import Mathlib.Data.List.TakeWhile
import Parlance.Diagnostic.Template

/-!
# Placeholders of a template

A template is cut into pieces: text without an opening brace, placeholders that reach from an
opening brace to the first closing brace behind it, and perhaps an opening brace at last that is
not closed, with all that follows. A closing brace without an opening one is text, and so is an
opening brace inside a placeholder. Every template can be cut in exactly one way.

Filling goes through the pieces once, from left to right. A placeholder whose name the context
knows contributes the value as it is, and any other piece contributes itself. So nothing in a
value is taken for a placeholder, and what is filled behind a closed template does not depend on
that template.
-/

namespace Parlance.Template

/-- A piece of a template. -/
inductive Piece where
  /-- Text without an opening brace. -/
  | plain (text : List Char)
  /-- What stands between an opening brace and the first closing brace behind it. -/
  | placeholder (inside : List Char)
  /-- What stands behind an opening brace that is not closed. -/
  | unclosed (rest : List Char)

namespace Piece

/-- The text of a piece, with its braces. -/
def text : Piece → List Char
  | .plain text => text
  | .placeholder inside => '\x7b' :: inside ++ ['\x7d']
  | .unclosed rest => '\x7b' :: rest

/-- The name in a placeholder, without the blanks around it. -/
def name? : Piece → Option String
  | .placeholder inside => some (String.ofList (Text.trim inside))
  | _ => none

/-- The text of a placeholder in front of other text, with the closing brace next to that. -/
theorem text_placeholder_append (inside behind : List Char) :
    (Piece.placeholder inside).text ++ behind = '\x7b' :: (inside ++ '\x7d' :: behind) := by
  simp [text]

/-- What a piece contributes: the value of its name if the context has one, and its own text
otherwise. -/
def filled (context : Dictionary String) (piece : Piece) : List Char :=
  match piece.name?.bind context.find? with
  | some value => value.toList
  | none => piece.text

end Piece

/-- The pieces are cut as the braces say: texts have no opening brace, are not empty and not next
to each other; a placeholder ends with the first closing brace; and an opening brace that is not
closed comes last, with no closing brace behind it. -/
inductive Cut : List Piece → Prop where
  | nothing : Cut []
  | plain {text : List Char} {pieces : List Piece} (nonempty : text ≠ [])
      (braceless : '\x7b' ∉ text) (apart : ∀ next later, pieces ≠ .plain next :: later)
      (others : Cut pieces) : Cut (.plain text :: pieces)
  | placeholder {inside : List Char} {pieces : List Piece} (first : '\x7d' ∉ inside)
      (others : Cut pieces) : Cut (.placeholder inside :: pieces)
  | unclosed {rest : List Char} (unended : '\x7d' ∉ rest) : Cut [.unclosed rest]

/-- Behind every opening brace there is a closing one. -/
def Closed (template : List Char) : Prop :=
  ∀ before behind, template = before ++ '\x7b' :: behind → '\x7d' ∈ behind

/-! ## Every template is cut in one way -/

/-- A character in front of pieces belongs to the text they begin with, or is a text by itself. Two
texts are never put next to each other, so the character is put into the text that is there. -/
theorem Cut.exists_cons {c : Char} (unopened : c ≠ '\x7b') {pieces : List Piece}
    (cut : Cut pieces) :
    ∃ others, Cut others ∧ others.flatMap Piece.text = c :: pieces.flatMap Piece.text := by
  have single : '\x7b' ∉ [c] := by simpa using unopened.symm
  cases cut with
  | nothing => exact ⟨[.plain [c]], .plain (by simp) single (by simp) .nothing, rfl⟩
  | @plain text pieces _ braceless apart others =>
    refine ⟨.plain (c :: text) :: pieces, .plain (by simp) ?_ apart others, rfl⟩
    intro member
    rcases List.mem_cons.mp member with same | inside
    · exact unopened same.symm
    · exact braceless inside
  | @placeholder inside pieces first others =>
    exact ⟨.plain [c] :: .placeholder inside :: pieces,
      .plain (by simp) single (by simp) (.placeholder first others), rfl⟩
  | @unclosed rest unended =>
    exact ⟨[.plain [c], .unclosed rest],
      .plain (by simp) single (by simp) (.unclosed unended), rfl⟩

/-- Every template can be cut.

Proof: at an opening brace the template is cut behind the first closing brace, or not at all when
there is none; what is left is shorter. Any other character goes to the pieces behind it. -/
theorem exists_cut (template : List Char) :
    ∃ pieces, Cut pieces ∧ pieces.flatMap Piece.text = template := by
  match template with
  | [] => exact ⟨[], .nothing, rfl⟩
  | c :: rest =>
    by_cases opening : c = '\x7b'
    · subst opening
      by_cases closing : '\x7d' ∈ rest
      · obtain ⟨inside, behind, divided, first⟩ := List.eq_append_cons_of_mem closing
        obtain ⟨pieces, cut, text⟩ := exists_cut behind
        refine ⟨.placeholder inside :: pieces, .placeholder first cut, ?_⟩
        rw [List.flatMap_cons, text, divided, Piece.text_placeholder_append]
      · exact ⟨[.unclosed rest], .unclosed closing, by simp [Piece.text]⟩
    · obtain ⟨pieces, cut, text⟩ := exists_cut rest
      obtain ⟨others, longer, whole⟩ := cut.exists_cons opening
      exact ⟨others, longer, by rw [whole, text]⟩
termination_by template.length
decreasing_by
  · simp only [divided, List.length_cons, List.length_append]
    omega
  · simp only [List.length_cons]
    omega

/-- The text up to the first occurrence of a character, or up to the end, is determined. On both
sides it is what is taken as long as the character does not come. -/
theorem eq_of_append_eq {c : Char} {first second behind others : List Char} (absent : c ∉ first)
    (missing : c ∉ second) (stops : behind = [] ∨ ∃ rest, behind = c :: rest)
    (ends : others = [] ∨ ∃ rest, others = c :: rest) (same : first ++ behind = second ++ others) :
    first = second ∧ behind = others := by
  have before (text rest : List Char) (free : c ∉ text)
      (stop : rest = [] ∨ ∃ more, rest = c :: more) :
      (text ++ rest).takeWhile (· ≠ c) = text := by
    rw [List.takeWhile_append_of_pos]
    · rcases stop with rfl | ⟨more, rfl⟩ <;> simp
    · intro other member
      simpa using fun equal : other = c => free (equal ▸ member)
  have equal : first = second := by
    rw [← before first behind absent stops, same, before second others missing ends]
  subst equal
  exact ⟨rfl, List.append_cancel_left same⟩

/-- What does not begin with a plain text begins with an opening brace, if with anything. -/
theorem Cut.opens {pieces : List Piece} (cut : Cut pieces)
    (apart : ∀ next later, pieces ≠ .plain next :: later) :
    pieces.flatMap Piece.text = [] ∨ ∃ rest, pieces.flatMap Piece.text = '\x7b' :: rest := by
  cases cut with
  | nothing => exact .inl rfl
  | plain => exact absurd rfl (apart _ _)
  | placeholder => exact .inr ⟨_, rfl⟩
  | unclosed => exact .inr ⟨_, rfl⟩

/-- A plain text does not begin with an opening brace. -/
theorem not_plain_eq_brace {text rest behind : List Char} (nonempty : text ≠ [])
    (braceless : '\x7b' ∉ text) : text ++ rest ≠ '\x7b' :: behind := by
  intro same
  cases text with
  | nil => exact nonempty rfl
  | cons c more =>
    obtain ⟨rfl, _⟩ := List.cons.inj same
    exact braceless List.mem_cons_self

/-- A placeholder has a closing brace, and what is not closed has none. -/
theorem placeholder_ne_unclosed {inside behind rest : List Char} (unended : '\x7d' ∉ rest) :
    '\x7b' :: (inside ++ '\x7d' :: behind) ≠ (Piece.unclosed rest).text := by
  intro same
  apply unended
  rw [← (List.cons.inj same).2]
  simp

/-- Pieces with the same text are the same. By induction over the pieces. The first character tells
whether a placeholder begins, a text ends at the next opening brace, and a placeholder at the first
closing one. -/
theorem Cut.unique {pieces others : List Piece} (cut : Cut pieces) (another : Cut others)
    (same : pieces.flatMap Piece.text = others.flatMap Piece.text) : pieces = others := by
  induction cut generalizing others with
  | nothing =>
    cases another with
    | nothing => rfl
    | plain nonempty => simp [Piece.text, nonempty] at same
    | placeholder => simp [Piece.text] at same
    | unclosed => simp [Piece.text] at same
  | @plain text pieces nonempty braceless apart behind inductionHypothesis =>
    cases another with
    | nothing => simp [Piece.text, nonempty] at same
    | @plain second others _ missing separate rest =>
      obtain ⟨rfl, tails⟩ := eq_of_append_eq braceless missing (behind.opens apart)
        (rest.opens separate) same
      rw [inductionHypothesis rest tails]
    | placeholder => exact absurd same (not_plain_eq_brace nonempty braceless)
    | unclosed => exact absurd same (not_plain_eq_brace nonempty braceless)
  | @placeholder inside pieces first behind inductionHypothesis =>
    rw [List.flatMap_cons, Piece.text_placeholder_append] at same
    cases another with
    | nothing => cases same
    | plain nonempty braceless => exact absurd same.symm (not_plain_eq_brace nonempty braceless)
    | @placeholder second others other rest =>
      rw [List.flatMap_cons, Piece.text_placeholder_append] at same
      obtain ⟨rfl, tails⟩ := eq_of_append_eq first other (.inr ⟨_, rfl⟩) (.inr ⟨_, rfl⟩)
        (List.cons.inj same).2
      rw [inductionHypothesis rest (List.cons.inj tails).2]
    | unclosed unended =>
      rw [List.flatMap_singleton] at same
      exact absurd same (placeholder_ne_unclosed unended)
  | @unclosed rest unended =>
    rw [List.flatMap_singleton] at same
    cases another with
    | nothing => cases same
    | plain nonempty braceless => exact absurd same.symm (not_plain_eq_brace nonempty braceless)
    | placeholder =>
      rw [List.flatMap_cons, Piece.text_placeholder_append] at same
      exact absurd same.symm (placeholder_ne_unclosed unended)
    | unclosed =>
      rw [List.flatMap_singleton] at same
      rw [(List.cons.inj same).2]

/-! ## Filling piece by piece -/

variable (context : Dictionary String)

/-- Text without an opening brace is copied, and filling goes on behind it. -/
theorem fillChars_plain {text : List Char} (braceless : '\x7b' ∉ text) (behind : List Char) :
    fillChars context (text ++ behind) = text ++ fillChars context behind := by
  induction text with
  | nil => rfl
  | cons c rest inductionHypothesis =>
    have unopened := List.ne_of_not_mem_cons braceless
    have others := List.not_mem_of_not_mem_cons braceless
    rw [List.cons_append, fillChars, if_neg unopened.symm, inductionHypothesis others,
      List.cons_append]

/-- Everything up to a closing brace is inside a placeholder. -/
theorem isInside_of_notMem {text : List Char} (unended : '\x7d' ∉ text) :
    ∀ c ∈ text, isInside c = true := by
  intro c member
  simpa [isInside] using fun equal : c = '\x7d' => unended (equal ▸ member)

/-- A placeholder contributes its value, and filling goes on behind its closing brace. What was put
in is not read again. -/
theorem fillChars_placeholder {inside : List Char} (first : '\x7d' ∉ inside) (behind : List Char) :
    fillChars context ((Piece.placeholder inside).text ++ behind) =
      (Piece.placeholder inside).filled context ++ fillChars context behind := by
  have all := isInside_of_notMem first
  have closing : isInside '\x7d' = false := rfl
  have found : (inside ++ '\x7d' :: behind).dropWhile isInside = '\x7d' :: behind := by
    rw [List.dropWhile_append_of_pos all, List.dropWhile_cons_of_neg (by simp [closing])]
  have taken : (inside ++ '\x7d' :: behind).takeWhile isInside = inside := by
    rw [List.takeWhile_append_of_pos all, List.takeWhile_cons_of_neg (by simp [closing]),
      List.append_nil]
  rw [Piece.text_placeholder_append, fillChars, if_pos rfl]
  split
  · rename_i none
    rw [found] at none
    cases none
  · rename_i later others
    rw [found] at others
    obtain ⟨_, rfl⟩ := List.cons.inj others
    rw [taken]
    rfl

/-- An opening brace that is not closed is copied with all that is behind it. -/
theorem fillChars_unclosed {rest : List Char} (unended : '\x7d' ∉ rest) :
    fillChars context (Piece.unclosed rest).text = (Piece.unclosed rest).text := by
  have none : rest.dropWhile isInside = [] :=
    List.dropWhile_eq_nil_iff.mpr (isInside_of_notMem unended)
  rw [Piece.text, fillChars, if_pos rfl]
  split
  · rfl
  · rename_i found
    rw [none] at found
    cases found

/-- What stands behind pieces that are all closed is filled by itself. By induction over the pieces:
each of them is filled up to its own end, wherever that is. -/
theorem fillChars_append {pieces : List Piece} (cut : Cut pieces)
    (closed : ∀ rest, .unclosed rest ∉ pieces) (behind : List Char) :
    fillChars context (pieces.flatMap Piece.text ++ behind) =
      pieces.flatMap (Piece.filled context) ++ fillChars context behind := by
  induction cut with
  | nothing => rfl
  | plain _ braceless _ _ inductionHypothesis =>
    have later := inductionHypothesis fun rest member => closed rest (List.mem_cons_of_mem _ member)
    rw [List.flatMap_cons, List.append_assoc, Piece.text, fillChars_plain context braceless, later,
      List.flatMap_cons, List.append_assoc]
    rfl
  | placeholder first _ inductionHypothesis =>
    have later := inductionHypothesis fun rest member => closed rest (List.mem_cons_of_mem _ member)
    rw [List.flatMap_cons, List.append_assoc, fillChars_placeholder context first, later,
      List.flatMap_cons, List.append_assoc]
  | unclosed => exact absurd List.mem_cons_self (closed _)

/-- Filling a template is filling its pieces. By induction over the pieces. Nothing that is put in
is looked at again. -/
theorem fillChars_eq {pieces : List Piece} (cut : Cut pieces) :
    fillChars context (pieces.flatMap Piece.text) = pieces.flatMap (Piece.filled context) := by
  induction cut with
  | nothing => rw [List.flatMap_nil, List.flatMap_nil, fillChars]
  | plain _ braceless _ _ inductionHypothesis =>
    rw [List.flatMap_cons, Piece.text, fillChars_plain context braceless, inductionHypothesis]
    rfl
  | placeholder first _ inductionHypothesis =>
    rw [List.flatMap_cons, fillChars_placeholder context first, inductionHypothesis,
      List.flatMap_cons]
  | unclosed unended =>
    rw [List.flatMap_singleton, fillChars_unclosed context unended, List.flatMap_singleton]
    rfl

/-- In a closed template all pieces are. By induction over the pieces. Behind the opening brace of
an unclosed one there would have to be a closing brace, and there is none. -/
theorem Cut.closed {pieces : List Piece} (cut : Cut pieces)
    (closed : Closed (pieces.flatMap Piece.text)) : ∀ rest, .unclosed rest ∉ pieces := by
  have behind (piece : Piece) (others : List Piece)
      (whole : Closed ((piece :: others).flatMap Piece.text)) :
      Closed (others.flatMap Piece.text) := by
    intro before after divided
    apply whole (piece.text ++ before) after
    rw [List.flatMap_cons, divided, List.append_assoc]
  induction cut with
  | nothing => simp
  | plain _ _ _ _ inductionHypothesis =>
    intro rest member
    exact inductionHypothesis (behind _ _ closed) rest (by simpa using member)
  | placeholder _ _ inductionHypothesis =>
    intro rest member
    exact inductionHypothesis (behind _ _ closed) rest (by simpa using member)
  | @unclosed rest unended => exact absurd (closed [] rest (by simp [Piece.text])) unended

/-- Behind a closed template, filling begins anew. -/
theorem fillChars_append_of_closed {template : List Char} (closed : Closed template)
    (behind : List Char) :
    fillChars context (template ++ behind) =
      fillChars context template ++ fillChars context behind := by
  obtain ⟨pieces, cut, rfl⟩ := exists_cut template
  rw [fillChars_append context cut (cut.closed closed), fillChars_eq context cut]

/-- A template is cut into pieces in exactly one way, and to fill it is to put down, from left to
right, the value of each placeholder that the context knows, and every other piece as it is. So a
template stays as it is when the context knows none of its placeholders. A closed template with
another one behind it is filled as if each of them stood alone; and a value that is put in behind
it stands there with all its braces, whatever follows. -/
theorem fill_single_pass (template : String) :
    ∃ pieces, Cut pieces ∧ pieces.flatMap Piece.text = template.toList ∧
      (∀ others, Cut others → others.flatMap Piece.text = template.toList → others = pieces) ∧
      (∀ context, (fill template context).toList = pieces.flatMap (Piece.filled context)) ∧
      (∀ context, (∀ piece ∈ pieces, ∀ name, piece.name? = some name → context.find? name = none) →
        fill template context = template) ∧
      (Closed template.toList → ∀ context,
        (∀ behind, fill (template ++ behind) context =
          fill template context ++ fill behind context) ∧
        ∀ inside value behind, '\x7d' ∉ inside.toList →
          context.find? (String.ofList (Text.trim inside.toList)) = some value →
          fill (template ++ "\x7b" ++ inside ++ "\x7d" ++ behind) context =
            fill template context ++ value ++ fill behind context) := by
  obtain ⟨pieces, cut, text⟩ := exists_cut template.toList
  have filled (context : Dictionary String) :
      (fill template context).toList = pieces.flatMap (Piece.filled context) := by
    rw [fill, String.toList_ofList, ← text, fillChars_eq context cut]
  refine ⟨pieces, cut, text, ?_, filled, ?_, ?_⟩
  · intro others another same
    exact another.unique cut (same.trans text.symm)
  · intro context unknown
    have kept : ∀ piece ∈ pieces, piece.filled context = piece.text := by
      intro piece member
      rw [Piece.filled]
      cases named : piece.name? with
      | none => rfl
      | some name => rw [Option.bind_some, unknown piece member name named]
    apply String.toList_injective
    rw [filled, ← text]
    exact List.flatMap_congr kept
  · intro closed context
    constructor
    · intro behind
      apply String.toList_injective
      simp only [fill, String.toList_append, String.toList_ofList,
        fillChars_append_of_closed context closed]
    · intro inside value behind first known
      have single : ("\x7b" ++ inside ++ "\x7d" ++ behind).toList =
          (Piece.placeholder inside.toList).text ++ behind.toList := by
        simp [Piece.text]
      have valued : (Piece.placeholder inside.toList).filled context = value.toList := by
        rw [Piece.filled, Piece.name?, Option.bind_some, known]
      apply String.toList_injective
      rw [String.append_assoc, String.append_assoc, String.append_assoc, fill, String.toList_ofList,
        String.toList_append, fillChars_append_of_closed context closed]
      rw [← String.append_assoc, ← String.append_assoc, single, fillChars_placeholder context first,
        valued]
      simp only [fill, String.toList_append, String.toList_ofList, List.append_assoc]

/-- A placeholder may have an opening brace inside, blanks around its name do not count, and a
value is not looked at again. -/
example :
    let context : Dictionary String := .ofList [("a", "\x7bb\x7d"), ("b", "x")]
    fill "\x7b a \x7d, \x7ba \x7bb\x7d, \x7bb\x7d\x7d, \x7b" context =
      "\x7bb\x7d, \x7ba \x7bb\x7d, x\x7d, \x7b" := by
  decide +kernel

end Parlance.Template
