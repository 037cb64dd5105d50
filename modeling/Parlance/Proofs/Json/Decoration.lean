import Parlance.Json.Comments
import Parlance.Proofs.Json.Lexemes

/-!
# Decorated JSON becomes plain

A JSON text may be decorated: with blanks, line comments and block comments before, between
and behind its tokens, and with a comma behind the last item or member of an array or object
that is not empty. Making it plain removes the comments and those commas again, and leaves the
tokens of the text, each as it was written.

The two passes are treated one after the other. The first turns decorated tokens into the
same tokens with only blanks between them, since comments leave nothing but newlines. The
second removes from tokens with blanks between them every comma before a closing bracket, and
in a JSON text with commas added these are the added ones: no other comma is followed by a
closing bracket.

What stands inside a literal is never looked at, and what stands inside a comment only for
its end. So a comment may contain quotes, and a literal marks of comments.
-/

namespace Parlance.Json

/-! ## Documents and decorations -/

/-- The parts of a JSON text. -/
inductive Part where
  | value
  /-- The items of an array, one or more. -/
  | items
  /-- The members of an object, one or more. -/
  | members

/-- The comma that may be added before a closing bracket. -/
def comma (added : Bool) : List (List Char) := if added then [[',']] else []

/-- `tokens` are the tokens of a part of a JSON text, and `padded` are the same tokens with a
comma added behind the last items and members of some arrays and objects. -/
inductive Padded : Part → (tokens padded : List (List Char)) → Prop where
  | scalar {token : List Char} (valued : IsScalar token) : Padded .value [token] [token]
  | literal {body : List Char} (inside : IsBody body) :
    Padded .value ['"' :: body ++ ['"']] ['"' :: body ++ ['"']]
  | emptyArray : Padded .value [['['], [']']] [['['], [']']]
  | array {tokens padded : List (List Char)} (items : Padded .items tokens padded)
    (added : Bool) :
    Padded .value (['['] :: tokens ++ [[']']]) (['['] :: padded ++ comma added ++ [[']']])
  | emptyObject : Padded .value [['\x7b'], ['\x7d']] [['\x7b'], ['\x7d']]
  | object {tokens padded : List (List Char)} (members : Padded .members tokens padded)
    (added : Bool) :
    Padded .value (['\x7b'] :: tokens ++ [['\x7d']])
      (['\x7b'] :: padded ++ comma added ++ [['\x7d']])
  | lastItem {tokens padded : List (List Char)} (item : Padded .value tokens padded) :
    Padded .items tokens padded
  | moreItems {tokens padded others otherPadded : List (List Char)}
    (item : Padded .value tokens padded) (more : Padded .items others otherPadded) :
    Padded .items (tokens ++ [','] :: others) (padded ++ [','] :: otherPadded)
  | lastMember {key : List Char} {tokens padded : List (List Char)} (named : IsBody key)
    (item : Padded .value tokens padded) :
    Padded .members (('"' :: key ++ ['"']) :: [':'] :: tokens)
      (('"' :: key ++ ['"']) :: [':'] :: padded)
  | moreMembers {key : List Char} {tokens padded others otherPadded : List (List Char)}
    (named : IsBody key) (item : Padded .value tokens padded)
    (more : Padded .members others otherPadded) :
    Padded .members (('"' :: key ++ ['"']) :: [':'] :: tokens ++ [','] :: others)
      (('"' :: key ++ ['"']) :: [':'] :: padded ++ [','] :: otherPadded)

/-- What may stand between tokens: a blank, a line comment with its newline, or a block comment
with its end. -/
inductive IsFiller : List Char → Prop where
  | blank {c : Char} (space : isSpace c) : IsFiller [c]
  | line {remark : List Char} (onOne : '\n' ∉ remark) :
    IsFiller ('/' :: '/' :: remark ++ ['\n'])
  | block {remark : List Char} (unended : ¬ ['*', '/'] <:+: remark) :
    IsFiller ('/' :: '*' :: remark ++ ['*', '/'])

/-- The tokens are written one behind the other, with anything that may stand between tokens
before, between and behind them. A line comment at the end needs no newline. -/
inductive Decorated : List (List Char) → List Char → Prop where
  | nil : Decorated [] []
  | remark {remark : List Char} (onOne : '\n' ∉ remark) : Decorated [] ('/' :: '/' :: remark)
  | filler {filler text : List Char} {tokens : List (List Char)} (fills : IsFiller filler)
    (rest : Decorated tokens text) : Decorated tokens (filler ++ text)
  | token {token text : List Char} {tokens : List (List Char)} (rest : Decorated tokens text) :
    Decorated (token :: tokens) (token ++ text)

/-! ## What both passes copy -/

/-- A pass over a text: `code` is what it makes of a text that begins outside of string
literals, and `literal` of one that begins inside a literal. It copies literals, the characters
of scalars, and every mark but commas. -/
structure Copies (code literal : List Char → List Char) : Prop where
  opens : ∀ rest, code ('"' :: rest) = '"' :: literal rest
  closes : ∀ rest, literal ('"' :: rest) = '"' :: code rest
  character : ∀ c rest, c ≠ '"' → c ≠ '\\' → literal (c :: rest) = c :: literal rest
  escaped : ∀ c rest, literal ('\\' :: c :: rest) = '\\' :: c :: literal rest
  scalar : ∀ c rest, isScalarChar c → code (c :: rest) = c :: code rest
  mark : ∀ c rest, isMark c → c ≠ ',' → code (c :: rest) = c :: code rest

/-- A pass that copies literals copies what a literal encloses, with the closing quote, and goes on
outside of it. -/
theorem Copies.enclosed {code literal : List Char → List Char} (pass : Copies code literal)
    {body : List Char} (enclosed : Enclosed body) (rest : List Char) :
    literal (body ++ '"' :: rest) = body ++ '"' :: code rest := by
  induction enclosed with
  | nil => exact pass.closes rest
  | character unquoted unescaped _ inductionHypothesis =>
    rw [List.cons_append, pass.character _ _ unquoted unescaped, inductionHypothesis]
    rfl
  | escaped _ inductionHypothesis =>
    rw [List.cons_append, List.cons_append, pass.escaped, inductionHypothesis]
    rfl

/-- A pass that copies the characters of scalars copies any run of them. -/
theorem Copies.scalars {code literal : List Char → List Char} (pass : Copies code literal)
    {token : List Char} (scalarChars : ∀ c ∈ token, isScalarChar c) (rest : List Char) :
    code (token ++ rest) = token ++ code rest := by
  induction token with
  | nil => rfl
  | cons c others inductionHypothesis =>
    obtain ⟨first, more⟩ := List.forall_mem_cons.mp scalarChars
    rw [List.cons_append, pass.scalar c _ first, inductionHypothesis more]
    rfl

/-- Every token but the comma is copied. -/
theorem Copies.token {code literal : List Char → List Char} (pass : Copies code literal)
    {token : List Char} (valid : IsToken token) (other : token ≠ [',']) (rest : List Char) :
    code (token ++ rest) = token ++ code rest := by
  cases valid with
  | @mark c marks => exact pass.mark c rest marks fun comma => other (by rw [comma])
  | @literal body inside =>
    have copied := pass.enclosed inside.enclosed rest
    simp only [List.cons_append, List.append_assoc, List.nil_append, pass.opens, copied]
  | scalar valued => exact pass.scalars valued.scalarChars.2 rest

/-! ## Comments -/

/-- Outside of literals and comments, the removal of comments copies what is neither a quote nor a
slash. -/
theorem uncommented_code_cons {c : Char} (unquoted : c ≠ '"') (slashless : c ≠ '/')
    (rest : List Char) : uncommented .code (c :: rest) = c :: uncommented .code rest := by
  rw [uncommented]
  · exact unquoted
  · exact fun _ slash => absurd slash slashless
  · exact fun _ slash => absurd slash slashless

/-- The removal of comments copies literals, scalars and marks. None of their characters begins a
comment outside of a literal, and inside of one no character does. -/
theorem uncommented_copies : Copies (uncommented .code) (uncommented .literal) where
  opens rest := by rw [uncommented]
  closes rest := by rw [uncommented]
  character c rest unquoted unescaped := by
    rw [uncommented]
    · exact unquoted
    · exact fun _ _ backslash => absurd backslash unescaped
  escaped c rest := by rw [uncommented]
  scalar c rest scalar :=
    uncommented_code_cons (ne_of_class scalar '"' (by decide))
      (ne_of_class scalar '/' (by decide)) rest
  mark c rest marks _ :=
    uncommented_code_cons (ne_of_class marks '"' (by decide)) (ne_of_class marks '/' (by decide))
      rest

/-- A line comment leaves nothing. -/
theorem uncommented_line {remark : List Char} (onOne : '\n' ∉ remark) (rest : List Char) :
    uncommented .lineComment (remark ++ rest) = uncommented .lineComment rest := by
  induction remark with
  | nil => rfl
  | cons c others inductionHypothesis =>
    simp only [List.mem_cons, not_or] at onOne
    obtain ⟨different, absent⟩ := onOne
    rw [List.cons_append, uncommented, inductionHypothesis absent]
    exact fun newline => different newline.symm

/-- A block comment leaves its newlines. By induction over the remark. Its end does not come too
early, because the two characters of the end do not stand next to each other in it. -/
theorem uncommented_block {remark : List Char} (unended : ¬ ['*', '/'] <:+: remark)
    (rest : List Char) :
    uncommented .blockComment (remark ++ '*' :: '/' :: rest) =
      remark.filter (· = '\n') ++ uncommented .code rest := by
  induction remark with
  | nil => simp [uncommented]
  | cons c others inductionHypothesis =>
    have later := inductionHypothesis fun ended =>
      unended (ended.trans (List.suffix_cons c others).isInfix)
    -- The end of the comment does not begin at `c`: its slash would be the next character of
    -- the remark, or the star that ends the comment.
    have goesOn : ∀ behind, c = '*' → others ++ '*' :: '/' :: rest = '/' :: behind → False := by
      rintro behind rfl next
      cases others with
      | nil => simp at next
      | cons slash more =>
        obtain ⟨rfl, _⟩ := List.cons.inj next
        exact unended ⟨[], more, rfl⟩
    by_cases newline : c = '\n'
    · subst newline
      rw [List.cons_append, uncommented, later]
      simp
    · rw [List.cons_append, uncommented, later]
      · simp [newline]
      · exact goesOn
      · exact newline

/-- What stands between tokens becomes blank. A blank stays. A line comment leaves the newline
behind it, and a block comment the newlines inside of it. -/
theorem IsFiller.uncommented_eq {filler : List Char} (fills : IsFiller filler)
    (rest : List Char) :
    ∃ blanks, (∀ c ∈ blanks, isSpace c) ∧
      uncommented .code (filler ++ rest) = blanks ++ uncommented .code rest := by
  cases fills with
  | @blank c space =>
    have copied := uncommented_code_cons (ne_of_class space '"' (by decide))
      (ne_of_class space '/' (by decide)) rest
    exact ⟨[c], by simpa using space, copied⟩
  | @line remark onOne =>
    refine ⟨['\n'], List.forall_mem_singleton.mpr (by decide), ?_⟩
    simp only [List.cons_append, List.append_assoc, List.nil_append]
    rw [uncommented, uncommented_line onOne, uncommented]
  | @block remark unended =>
    refine ⟨remark.filter (· = '\n'), ?_, ?_⟩
    · intro c member
      obtain rfl : c = '\n' := by simpa using (List.mem_filter.mp member).2
      decide
    · simp only [List.cons_append, List.append_assoc, List.nil_append]
      rw [uncommented, uncommented_block unended]

/-- Without its comments a decorated text is its tokens with blanks between them. By induction over
the decorated text: fillers become blanks, and tokens are copied, since no token has the beginning
of a comment in it. -/
theorem Decorated.stripComments_spaced {tokens : List (List Char)} {text : List Char}
    (decorated : Decorated tokens text) (valid : ∀ token ∈ tokens, IsToken token) :
    Spaced tokens (stripComments text) := by
  unfold stripComments
  induction decorated with
  | nil => exact .nil
  | @remark remark onOne =>
    have silent := uncommented_line onOne []
    rw [List.append_nil] at silent
    rw [uncommented, silent]
    exact .nil
  | @filler filler text tokens fills _ inductionHypothesis =>
    obtain ⟨blanks, blank, left⟩ := fills.uncommented_eq text
    rw [left]
    exact .blanks blank (inductionHypothesis valid)
  | @token token text tokens _ inductionHypothesis =>
    obtain ⟨first, others⟩ := List.forall_mem_cons.mp valid
    have left : uncommented .code (token ++ text) = token ++ uncommented .code text := by
      by_cases comma : token = [',']
      · subst comma
        exact uncommented_code_cons (by decide) (by decide) text
      · exact uncommented_copies.token first comma text
    rw [left]
    exact .token first (inductionHypothesis others)

/-! ## Commas before closing brackets -/

/-- Whether the token closes an array or an object. -/
def isClosing (token : List Char) : Bool := token = [']'] || token = ['\x7d']

/-- The tokens without the commas that stand before closing brackets. -/
def withoutTrailing : List (List Char) → List (List Char)
  | [] => []
  | token :: rest =>
    if token = [','] ∧ rest.head?.any isClosing then withoutTrailing rest
    else token :: withoutTrailing rest

/-- Outside of literals, the removal of commas copies what is neither a quote nor a comma. -/
theorem unpadded_code_cons {c : Char} (unquoted : c ≠ '"') (other : c ≠ ',') (rest : List Char) :
    unpadded false (c :: rest) = c :: unpadded false rest := by
  rw [unpadded]
  · exact unquoted
  · exact other

/-- The removal of commas copies literals, scalars and all marks but commas. A comma is the only
character outside of literals that is looked at. -/
theorem unpadded_copies : Copies (unpadded false) (unpadded true) where
  opens rest := by rw [unpadded]
  closes rest := by rw [unpadded]
  character c rest unquoted unescaped := by
    rw [unpadded]
    · exact unquoted
    · exact fun _ _ backslash => absurd backslash unescaped
  escaped c rest := by rw [unpadded]
  scalar c rest scalar :=
    unpadded_code_cons (ne_of_class scalar '"' (by decide))
      (ne_of_class scalar ',' (by decide)) rest
  mark c rest marks other := unpadded_code_cons (ne_of_class marks '"' (by decide)) other rest

/-- Blanks are neither marks nor characters of scalars. -/
theorem class_of_isSpacing {c : Char} (spacing : isSpacing c) :
    isMark c = false ∧ isScalarChar c = false := by
  simp only [isSpacing, Bool.or_eq_true, decide_eq_true_eq] at spacing
  rcases spacing with (((rfl | rfl) | rfl) | rfl) | rfl <;> decide

/-- What is a blank between tokens is a blank behind a comma as well. -/
theorem isSpacing_of_isSpace {c : Char} (space : isSpace c) : isSpacing c := by
  simp only [isSpace, Bool.or_eq_true, decide_eq_true_eq] at space
  rcases space with ((rfl | rfl) | rfl) | rfl <;> rfl

/-- A blank is passed over in the search for a closing bracket. -/
theorem closesNext_cons_of_isSpacing {c : Char} (spacing : isSpacing c) (rest : List Char) :
    closesNext (c :: rest) = closesNext rest := by
  rw [closesNext, closesNext, List.dropWhile_cons, if_pos spacing]

/-- The first visible character decides whether a closing bracket comes next. Blanks are skipped,
and there are none in front of it. -/
theorem closesNext_cons {c : Char} (visible : isSpacing c = false) (rest : List Char) :
    closesNext (c :: rest) = isClosing [c] := by
  have shown : (c :: rest).dropWhile isSpacing = c :: rest := by simp [visible]
  rw [closesNext, shown]
  by_cases bracket : c = ']'
  · subst bracket
    rfl
  · by_cases brace : c = '\x7d'
    · subst brace
      rfl
    · simp [isClosing, bracket, brace]

/-- A scalar is no mark, as it has a character of scalars at its beginning. -/
theorem IsScalar.ne_mark {token : List Char} (valued : IsScalar token) (c : Char)
    (marks : isMark c) : token ≠ [c] := by
  rintro rfl
  have scalar := valued.scalarChars.2 c (List.mem_singleton.mpr rfl)
  have run := isRunChar_of_isScalarChar scalar
  simp [isRunChar, marks] at run

/-- A scalar closes neither an array nor an object. -/
theorem IsScalar.not_closing {token : List Char} (valued : IsScalar token) :
    isClosing token = false := by
  simp [isClosing, valued.ne_mark ']' (by decide), valued.ne_mark '\x7d' (by decide)]

/-- A valid token begins with a character that is not blank, and that tells whether it is a
closing bracket. -/
theorem IsToken.closesNext_eq {token : List Char} (valid : IsToken token) (rest : List Char) :
    closesNext (token ++ rest) = isClosing token := by
  cases valid with
  | @mark c marks =>
    have visible : isSpacing c = false := Bool.eq_false_iff.mpr fun spacing => by
      simpa [marks] using (class_of_isSpacing spacing).1
    exact closesNext_cons visible rest
  | literal _ =>
    rw [List.cons_append, List.cons_append, closesNext_cons (by decide)]
    simp [isClosing]
  | scalar valued =>
    obtain ⟨c, others, rfl, scalar, _⟩ := valued.uncons
    have visible : isSpacing c = false := Bool.eq_false_iff.mpr fun spacing => by
      simpa [scalar] using (class_of_isSpacing spacing).2
    rw [List.cons_append, closesNext_cons visible, valued.not_closing]
    simp [isClosing, ne_of_class scalar ']' (by decide), ne_of_class scalar '\x7d' (by decide)]

/-- The next character that is not blank is the first of the next token. -/
theorem Spaced.closesNext_eq {tokens : List (List Char)} {text : List Char}
    (spaced : Spaced tokens text) : closesNext text = tokens.head?.any isClosing := by
  induction spaced with
  | nil => rfl
  | blank space _ inductionHypothesis =>
    rw [closesNext_cons_of_isSpacing (isSpacing_of_isSpace space), inductionHypothesis]
  | @token token tokens text valid _ _ => exact valid.closesNext_eq text

/-- Of tokens with blanks between them, exactly the commas before closing brackets go. What decides
about a comma is the next token, as the blanks in front of that are looked past. -/
theorem Spaced.stripTrailingCommas_spaced {tokens : List (List Char)} {text : List Char}
    (spaced : Spaced tokens text) :
    Spaced (withoutTrailing tokens) (stripTrailingCommas text) := by
  unfold stripTrailingCommas
  induction spaced with
  | nil => exact .nil
  | @blank c tokens text space _ inductionHypothesis =>
    rw [unpadded_code_cons (ne_of_class space '"' (by decide))
      (ne_of_class space ',' (by decide))]
    exact .blank space inductionHypothesis
  | @token token tokens text valid rest inductionHypothesis =>
    by_cases comma : token = [',']
    · subst comma
      rw [List.singleton_append, unpadded, rest.closesNext_eq, withoutTrailing]
      by_cases closes : tokens.head?.any isClosing
      · rw [if_pos closes, if_pos ⟨rfl, closes⟩]
        exact inductionHypothesis
      · rw [if_neg closes, if_neg fun trailing => closes trailing.2]
        exact .token valid inductionHypothesis
    · rw [unpadded_copies.token valid comma, withoutTrailing,
        if_neg fun trailing => comma trailing.1]
      exact .token valid inductionHypothesis

/-! ## Tokens of documents -/

/-- A document with no comma added. By induction over the document, with the choice against the
comma wherever there is one. -/
theorem Padded.self {part : Part} {tokens padded : List (List Char)}
    (document : Padded part tokens padded) : Padded part tokens tokens := by
  induction document with
  | scalar valued => exact .scalar valued
  | literal inside => exact .literal inside
  | emptyArray => exact .emptyArray
  | array _ _ inductionHypothesis =>
    simpa [comma] using Padded.array inductionHypothesis false
  | emptyObject => exact .emptyObject
  | object _ _ inductionHypothesis =>
    simpa [comma] using Padded.object inductionHypothesis false
  | lastItem _ inductionHypothesis => exact .lastItem inductionHypothesis
  | moreItems _ _ itemHypothesis moreHypothesis => exact .moreItems itemHypothesis moreHypothesis
  | lastMember named _ inductionHypothesis => exact .lastMember named inductionHypothesis
  | moreMembers named _ _ itemHypothesis moreHypothesis =>
    exact .moreMembers named itemHypothesis moreHypothesis

/-- A comma that may have been added is a token of JSON. -/
theorem comma_isToken {added : Bool} : ∀ token ∈ comma added, IsToken token := by
  intro token member
  cases added with
  | false => simp [comma] at member
  | true =>
    obtain rfl : token = [','] := by simpa [comma] using member
    exact .mark (by decide)

/-- Everything in a padded part of a JSON text is a token of JSON, the added commas included. By
induction over the document, with one case for every form of a value and for every place where a
comma may be added. -/
theorem Padded.isToken {part : Part} {tokens padded : List (List Char)}
    (document : Padded part tokens padded) : ∀ token ∈ padded, IsToken token := by
  induction document with
  | scalar valued => exact List.forall_mem_singleton.mpr (.scalar valued)
  | literal inside => exact List.forall_mem_singleton.mpr (.literal inside)
  | emptyArray =>
    simp only [List.forall_mem_cons]
    exact ⟨.mark (by decide), .mark (by decide), by simp⟩
  | array _ _ inductionHypothesis =>
    simp only [List.forall_mem_append, List.forall_mem_cons]
    exact ⟨⟨⟨.mark (by decide), inductionHypothesis⟩, comma_isToken⟩, .mark (by decide), by simp⟩
  | emptyObject =>
    simp only [List.forall_mem_cons]
    exact ⟨.mark (by decide), .mark (by decide), by simp⟩
  | object _ _ inductionHypothesis =>
    simp only [List.forall_mem_append, List.forall_mem_cons]
    exact ⟨⟨⟨.mark (by decide), inductionHypothesis⟩, comma_isToken⟩, .mark (by decide), by simp⟩
  | lastItem _ inductionHypothesis => exact inductionHypothesis
  | moreItems _ _ itemHypothesis moreHypothesis =>
    simp only [List.forall_mem_append, List.forall_mem_cons]
    exact ⟨itemHypothesis, .mark (by decide), moreHypothesis⟩
  | lastMember named _ inductionHypothesis =>
    simp only [List.forall_mem_cons]
    exact ⟨.literal named, .mark (by decide), inductionHypothesis⟩
  | moreMembers named _ _ itemHypothesis moreHypothesis =>
    simp only [List.forall_mem_append, List.forall_mem_cons]
    exact ⟨⟨.literal named, .mark (by decide), itemHypothesis⟩, .mark (by decide), moreHypothesis⟩

/-- Two scalars of a document are never neighbours. By induction over the document: a mark stands on
each side of a scalar, or nothing at all. -/
theorem Padded.apart {part : Part} {tokens padded : List (List Char)}
    (document : Padded part tokens padded) : Apart tokens := by
  induction document with
  | scalar _ => exact .singleton _
  | literal _ => exact .singleton _
  | emptyArray => exact (Apart.singleton _).cons rfl
  | array _ _ inductionHypothesis =>
    exact (inductionHypothesis.cons rfl).append rfl (.singleton _)
  | emptyObject => exact (Apart.singleton _).cons rfl
  | object _ _ inductionHypothesis =>
    exact (inductionHypothesis.cons rfl).append rfl (.singleton _)
  | lastItem _ inductionHypothesis => exact inductionHypothesis
  | moreItems _ _ itemHypothesis moreHypothesis =>
    exact itemHypothesis.append rfl (moreHypothesis.cons rfl)
  | lastMember _ _ inductionHypothesis => exact (inductionHypothesis.cons rfl).cons rfl
  | moreMembers _ _ _ itemHypothesis moreHypothesis =>
    exact ((itemHypothesis.cons rfl).cons rfl).append rfl (moreHypothesis.cons rfl)

/-- No part begins with a closing bracket. Values begin with a scalar, a quote or an opening
bracket, and members with a quote. -/
theorem Padded.head_not_closing {part : Part} {tokens padded : List (List Char)}
    (document : Padded part tokens padded) (rest : List (List Char)) :
    (padded ++ rest).head?.any isClosing = false := by
  induction document generalizing rest with
  | scalar valued => exact valued.not_closing
  | literal _ => simp [isClosing]
  | emptyArray => rfl
  | array _ _ _ => rfl
  | emptyObject => rfl
  | object _ _ _ => rfl
  | lastItem _ inductionHypothesis => exact inductionHypothesis rest
  | moreItems _ _ itemHypothesis _ =>
    rw [List.append_assoc]
    exact itemHypothesis _
  | lastMember _ _ _ => simp [isClosing]
  | moreMembers _ _ _ _ _ => simp [isClosing]

/-- What is no comma stays where commas before closing brackets are removed. -/
theorem withoutTrailing_cons {token : List Char} (other : token ≠ [',']) (rest : List (List Char)) :
    withoutTrailing (token :: rest) = token :: withoutTrailing rest := by
  rw [withoutTrailing, if_neg fun trailing => other trailing.1]

/-- A comma before a part stays. -/
theorem Padded.withoutTrailing_comma_cons {part : Part} {tokens padded : List (List Char)}
    (document : Padded part tokens padded) (rest : List (List Char)) :
    withoutTrailing ([','] :: (padded ++ rest)) = [','] :: withoutTrailing (padded ++ rest) := by
  rw [withoutTrailing, document.head_not_closing rest, if_neg (by simp)]

/-- An added comma goes. A bracket that closes is right behind it. -/
theorem withoutTrailing_comma {bracket : List Char} (closes : isClosing bracket) (added : Bool)
    (rest : List (List Char)) :
    withoutTrailing (comma added ++ bracket :: rest) = bracket :: withoutTrailing rest := by
  have other : bracket ≠ [','] := by
    rintro rfl
    exact absurd closes (by decide)
  cases added with
  | false => exact withoutTrailing_cons other rest
  | true =>
    rw [comma, if_pos rfl, List.singleton_append, withoutTrailing, if_pos ⟨rfl, closes⟩,
      withoutTrailing_cons other]

/-- The commas before closing brackets are the added ones. By induction over the document. A
comma between two items stays, since an item never begins with a closing bracket, and the added
ones go. -/
theorem Padded.withoutTrailing_append {part : Part} {tokens padded : List (List Char)}
    (document : Padded part tokens padded) (rest : List (List Char)) :
    withoutTrailing (padded ++ rest) = tokens ++ withoutTrailing rest := by
  induction document generalizing rest with
  | scalar valued => exact withoutTrailing_cons (valued.ne_mark ',' (by decide)) rest
  | literal _ => exact withoutTrailing_cons (by simp) rest
  | emptyArray =>
    exact (withoutTrailing_cons (by decide) _).trans
      (congrArg _ (withoutTrailing_cons (by decide) rest))
  | array _ added inductionHypothesis =>
    simp only [List.cons_append, List.append_assoc, List.nil_append]
    rw [withoutTrailing_cons (by decide), inductionHypothesis, withoutTrailing_comma rfl]
  | emptyObject =>
    exact (withoutTrailing_cons (by decide) _).trans
      (congrArg _ (withoutTrailing_cons (by decide) rest))
  | object _ added inductionHypothesis =>
    simp only [List.cons_append, List.append_assoc, List.nil_append]
    rw [withoutTrailing_cons (by decide), inductionHypothesis, withoutTrailing_comma rfl]
  | lastItem _ inductionHypothesis => exact inductionHypothesis rest
  | moreItems _ more itemHypothesis moreHypothesis =>
    simp only [List.cons_append, List.append_assoc]
    rw [itemHypothesis, more.withoutTrailing_comma_cons, moreHypothesis]
  | lastMember _ _ inductionHypothesis =>
    simp only [List.cons_append]
    rw [withoutTrailing_cons (by simp), withoutTrailing_cons (by decide), inductionHypothesis]
  | moreMembers _ _ more itemHypothesis moreHypothesis =>
    simp only [List.cons_append, List.append_assoc]
    rw [withoutTrailing_cons (by simp), withoutTrailing_cons (by decide), itemHypothesis,
      more.withoutTrailing_comma_cons, moreHypothesis]

/-- Making a decorated document plain leaves the tokens that the document has when it is
written without any decoration. -/
theorem lexemes_plain_decorated {tokens padded : List (List Char)} {text : List Char}
    (document : Padded .value tokens padded) (decorated : Decorated padded text) :
    lexemes (plain text) = tokens ∧ lexemes tokens.flatten = tokens := by
  have unpadded : withoutTrailing padded = tokens := by
    simpa [withoutTrailing] using document.withoutTrailing_append []
  have spaced : Spaced tokens (plain text) := by
    have stripped := (decorated.stripComments_spaced document.isToken).stripTrailingCommas_spaced
    rwa [unpadded] at stripped
  exact ⟨spaced.lexemes_eq document.apart,
    (Spaced.flatten document.self.isToken).lexemes_eq document.apart⟩

/-- A comment with quotes and brackets, a key with the marks of a comment, a comment with a
comma and two stars at its end, two added commas of which one is followed by a comment, and a
comment that the text ends. -/
def annotated : List Char :=
  "// \"top\" ]\n\x7b \"a\\\"//\" /* \",\n **/: [ 1 , true, /* last */ ] , \x7d // end".toList

/-- The tokens of the example without its added commas. -/
def annotatedTokens : List (List Char) :=
  ["\x7b", "\"a\\\"//\"", ":", "[", "1", ",", "true", "]", "\x7d"].map String.toList

/-- The tokens of the example with its added commas. -/
def annotatedPadded : List (List Char) :=
  ["\x7b", "\"a\\\"//\"", ":", "[", "1", ",", "true", ",", "]", ",", "\x7d"].map String.toList

/-- The padded tokens of the example are those of an object, with a comma added in the array and
another one in the object. -/
theorem annotated_padded : Padded .value annotatedTokens annotatedPadded := by
  have key : IsBody "a\\\"//".toList :=
    .character (by decide) (by decide) (by decide) (.letter (by decide)
      (.character (by decide) (by decide) (by decide)
        (.character (by decide) (by decide) (by decide) .nil)))
  have one : IsNumber "1".toList :=
    ⟨[], ['1'], [], [], rfl, .inl rfl,
      .inr ⟨⟨by decide, List.forall_mem_singleton.mpr (by decide)⟩, by decide⟩, .inl rfl, .inl rfl⟩
  have items := Padded.moreItems (.scalar (.inl one)) (.lastItem (.scalar (.inr (.inl rfl))))
  exact .object (.lastMember key (.array items true)) true

/-- The text of the example has its padded tokens, with blanks and comments between them. Each of
its comments is shown to be a filler, and the tokens are put between them. -/
theorem annotated_decorated : Decorated annotatedPadded annotated := by
  have blank : IsFiller " ".toList := .blank (by decide)
  have top : IsFiller "// \"top\" ]\n".toList :=
    .line (by decide : '\n' ∉ " \"top\" ]".toList)
  have unended {remark : List Char} (slashless : '/' ∉ remark) : ¬ ['*', '/'] <:+: remark :=
    fun ended => slashless (ended.subset (by decide))
  have starred : IsFiller "/* \",\n **/".toList :=
    .block (unended (by decide : '/' ∉ " \",\n *".toList))
  have last : IsFiller "/* last */".toList :=
    .block (unended (by decide : '/' ∉ " last ".toList))
  have ending : Decorated ([",", "\x7d"].map String.toList) " , \x7d // end".toList :=
    .filler blank (.token (.filler blank (.token (.filler blank
      (.remark (by decide : '\n' ∉ " end".toList))))))
  have array : Decorated (["[", "1", ",", "true", ",", "]", ",", "\x7d"].map String.toList)
      "[ 1 , true, /* last */ ] , \x7d // end".toList :=
    .token (.filler blank (.token (.filler blank (.token (.filler blank (.token (.token
      (.filler blank (.filler last (.filler blank (.token ending)))))))))))
  exact .filler top (.token (.filler blank (.token (.filler blank (.filler starred (.token
    (.filler blank array)))))))

/-- No comment and no added comma is left, and the key is as it was written. -/
theorem annotated_plain :
    Padded .value annotatedTokens annotatedPadded ∧ Decorated annotatedPadded annotated ∧
      lexemes (plain annotated) = annotatedTokens ∧
      lexemes annotatedTokens.flatten = annotatedTokens :=
  ⟨annotated_padded, annotated_decorated,
    lexemes_plain_decorated annotated_padded annotated_decorated⟩

end Parlance.Json
