import Mathlib.Data.List.Chain
import Parlance.Json.Document

/-!
# Lexical tokens of JSON texts

Every text has a sequence of lexical tokens: punctuation marks, string literals, and the
longest possible runs of other characters that are not blank. `lexemes` reads them off a
text that need not be JSON. It keeps the text of each token, so that two spellings of one
value are told apart.

The tokens that may stand in a JSON text are marks, literals without controls and with
proper escapes only, numbers, and the three words. When these are written with any blanks
between them, and no two scalars meet, reading the text gives back the tokens; two scalars
that meet would be read as one.
-/

namespace Parlance.Json

/-- The punctuation marks. -/
def isMark (c : Char) : Bool :=
  c = '[' || c = ']' || c = '\x7b' || c = '\x7d' || c = ':' || c = ','

/-- The characters of a run. -/
def isRunChar (c : Char) : Bool := !isSpace c && !isMark c && c ≠ '"'

/-- A text that begins inside a string literal: what belongs to the literal, its closing
quote included, and what is behind it. A literal that is not closed takes everything. -/
def throughQuote : List Char → List Char × List Char
  | [] => ([], [])
  | '"' :: rest => (['"'], rest)
  | '\\' :: c :: rest => ('\\' :: c :: (throughQuote rest).1, (throughQuote rest).2)
  | c :: rest => (c :: (throughQuote rest).1, (throughQuote rest).2)

/-- Behind a literal there is no more text than from its beginning on, so that the tokens of a text
come to an end. -/
theorem length_throughQuote_le (text : List Char) :
    (throughQuote text).2.length ≤ text.length := by
  fun_induction throughQuote text with
  | case1 => exact Nat.le_refl 0
  | case2 rest => exact Nat.le_succ _
  | case3 c rest inductionHypothesis =>
    simp only [List.length_cons]
    omega
  | case4 c rest _ _ inductionHypothesis =>
    simp only [List.length_cons]
    omega

/-- The lexical tokens of a text. -/
def lexemes (text : List Char) : List (List Char) :=
  match text with
  | [] => []
  | c :: rest =>
    if isSpace c then lexemes rest
    else if isMark c then [c] :: lexemes rest
    else if c = '"' then ('"' :: (throughQuote rest).1) :: lexemes (throughQuote rest).2
    else (c :: rest.takeWhile isRunChar) :: lexemes (rest.dropWhile isRunChar)
termination_by text.length
decreasing_by
  · exact Nat.lt_succ_self _
  · exact Nat.lt_succ_self _
  · exact Nat.lt_succ_of_le (length_throughQuote_le rest)
  · exact Nat.lt_succ_of_le (List.dropWhile_suffix isRunChar).length_le

/-! ## The tokens of JSON -/

/-- The inside of a string literal. -/
inductive IsBody : List Char → Prop where
  | nil : IsBody []
  | character {c : Char} {rest : List Char} (unquoted : c ≠ '"') (unescaped : c ≠ '\\')
    (printed : 0x20 ≤ c.toNat) (more : IsBody rest) : IsBody (c :: rest)
  | letter {c : Char} {rest : List Char} (known : (escapedLetter c).isSome)
    (more : IsBody rest) : IsBody ('\\' :: c :: rest)
  | code {digits rest : List Char} (four : digits.length = 4)
    (hex : ∀ c ∈ digits, (hexValue c).isSome) (more : IsBody rest) :
    IsBody ('\\' :: 'u' :: digits ++ rest)

/-- One digit or more. -/
def IsDigits (text : List Char) : Prop := text ≠ [] ∧ ∀ c ∈ text, isDigit c

/-- A number: a sign, an integer without leading zeros, a fraction and an exponent, of which
only the integer is needed. -/
def IsNumber (text : List Char) : Prop :=
  ∃ sign whole fraction exponent, text = sign ++ whole ++ fraction ++ exponent ∧
    (sign = [] ∨ sign = ['-']) ∧
    (whole = ['0'] ∨ IsDigits whole ∧ whole.head? ≠ some '0') ∧
    (fraction = [] ∨ ∃ digits, IsDigits digits ∧ fraction = '.' :: digits) ∧
    (exponent = [] ∨ ∃ letter power digits, (letter = 'e' ∨ letter = 'E') ∧
      (power = [] ∨ power = ['+'] ∨ power = ['-']) ∧ IsDigits digits ∧
      exponent = letter :: power ++ digits)

/-- A number or one of the three words. -/
def IsScalar (text : List Char) : Prop :=
  IsNumber text ∨ text = "true".toList ∨ text = "false".toList ∨ text = "null".toList

/-- A token that may stand in a JSON text. -/
inductive IsToken : List Char → Prop where
  | mark {c : Char} (marks : isMark c) : IsToken [c]
  | literal {body : List Char} (inside : IsBody body) : IsToken ('"' :: body ++ ['"'])
  | scalar {text : List Char} (valued : IsScalar text) : IsToken text

/-- The characters of scalars. -/
def isScalarChar (c : Char) : Bool := isDigit c || "+-.aeflnrstuE".toList.contains c

/-- Digits are characters of scalars. -/
theorem IsDigits.scalarChars {text : List Char} (digits : IsDigits text) :
    ∀ c ∈ text, isScalarChar c := by
  intro c member
  simp [isScalarChar, digits.2 c member]

/-- A number is not empty and has only characters of scalars: digits, signs, a point and the letter
of an exponent. -/
theorem IsNumber.scalarChars {text : List Char} (number : IsNumber text) :
    text ≠ [] ∧ ∀ c ∈ text, isScalarChar c := by
  obtain ⟨sign, whole, fraction, exponent, rfl, signed, whole', fractioned, raised⟩ := number
  have signChars : ∀ c ∈ sign, isScalarChar c := by
    rcases signed with rfl | rfl <;> simp [isScalarChar]
  have wholeChars : whole ≠ [] ∧ ∀ c ∈ whole, isScalarChar c := by
    rcases whole' with rfl | ⟨digits, _⟩
    · exact ⟨by simp, List.forall_mem_singleton.mpr (by decide)⟩
    · exact ⟨digits.1, digits.scalarChars⟩
  have fractionChars : ∀ c ∈ fraction, isScalarChar c := by
    rcases fractioned with rfl | ⟨digits, places, rfl⟩
    · simp
    · exact List.forall_mem_cons.mpr ⟨by decide, places.scalarChars⟩
  have exponentChars : ∀ c ∈ exponent, isScalarChar c := by
    rcases raised with rfl | ⟨letter, power, digits, named, signs, places, rfl⟩
    · simp
    · refine List.forall_mem_append.mpr ⟨List.forall_mem_cons.mpr ⟨?_, ?_⟩, places.scalarChars⟩
      · rcases named with rfl | rfl <;> decide
      · exact List.all_eq_true.mp (by rcases signs with rfl | rfl | rfl <;> decide)
  refine ⟨by simp [wholeChars.1], ?_⟩
  simp only [List.forall_mem_append]
  exact ⟨⟨⟨signChars, wholeChars.2⟩, fractionChars⟩, exponentChars⟩

/-- A scalar is not empty and has only characters of scalars. -/
theorem IsScalar.scalarChars {text : List Char} (scalar : IsScalar text) :
    text ≠ [] ∧ ∀ c ∈ text, isScalarChar c := by
  rcases scalar with number | rfl | rfl | rfl
  · exact number.scalarChars
  · exact ⟨by decide, List.all_eq_true.mp (by decide)⟩
  · exact ⟨by decide, List.all_eq_true.mp (by decide)⟩
  · exact ⟨by decide, List.all_eq_true.mp (by decide)⟩

/-- A scalar has a first character. -/
theorem IsScalar.uncons {text : List Char} (scalar : IsScalar text) :
    ∃ c rest, text = c :: rest ∧ isScalarChar c ∧ ∀ next ∈ rest, isScalarChar next := by
  obtain ⟨filled, scalarChars⟩ := scalar.scalarChars
  cases text with
  | nil => exact absurd rfl filled
  | cons c rest => exact ⟨c, rest, rfl, List.forall_mem_cons.mp scalarChars⟩

/-- A character of a class differs from every character that is not of it. -/
theorem ne_of_class {isOne : Char → Bool} {c : Char} (belongs : isOne c) (other : Char)
    (different : isOne other = false) : c ≠ other := by
  rintro rfl
  rw [belongs] at different
  cases different

/-- The characters of scalars are neither blanks nor marks nor quotes, and so they form runs. -/
theorem isRunChar_of_isScalarChar {c : Char} (scalar : isScalarChar c) : isRunChar c := by
  have apart := ne_of_class scalar
  simp [isRunChar, isSpace, isMark, apart ' ' (by decide), apart '\n' (by decide),
    apart '\t' (by decide), apart '\r' (by decide), apart '[' (by decide), apart ']' (by decide),
    apart '\x7b' (by decide), apart '\x7d' (by decide), apart ':' (by decide),
    apart ',' (by decide), apart '"' (by decide)]

/-! ## Literals -/

/-- A text that a string literal may enclose, whatever its escapes mean: characters other
than quotes and backslashes, and backslashes with the character behind them. -/
inductive Enclosed : List Char → Prop where
  | nil : Enclosed []
  | character {c : Char} {rest : List Char} (unquoted : c ≠ '"') (unescaped : c ≠ '\\')
    (more : Enclosed rest) : Enclosed (c :: rest)
  | escaped {c : Char} {rest : List Char} (more : Enclosed rest) :
    Enclosed ('\\' :: c :: rest)

/-- Hexadecimal digits need no escape. By induction over the digits, as a quote and a backslash are
none. -/
theorem Enclosed.hexDigits {digits rest : List Char} (hex : ∀ c ∈ digits, (hexValue c).isSome)
    (more : Enclosed rest) : Enclosed (digits ++ rest) := by
  induction digits with
  | nil => exact more
  | cons digit digits inductionHypothesis =>
    obtain ⟨first, others⟩ := List.forall_mem_cons.mp hex
    refine .character ?_ ?_ (inductionHypothesis others)
    · rintro rfl
      exact absurd first (by decide)
    · rintro rfl
      exact absurd first (by decide)

/-- The inside of a literal of JSON has no quote that is not escaped, and no backslash at its
end. -/
theorem IsBody.enclosed {body : List Char} (inside : IsBody body) : Enclosed body := by
  induction inside with
  | nil => exact .nil
  | character unquoted unescaped _ _ inductionHypothesis =>
    exact .character unquoted unescaped inductionHypothesis
  | letter _ _ inductionHypothesis => exact .escaped inductionHypothesis
  | code _ hex _ inductionHypothesis => exact .escaped (.hexDigits hex inductionHypothesis)

/-- A literal ends with the first quote behind its body. By induction over the body, where every
quote is escaped. -/
theorem Enclosed.throughQuote_eq {body : List Char} (enclosed : Enclosed body)
    (rest : List Char) : throughQuote (body ++ '"' :: rest) = (body ++ ['"'], rest) := by
  induction enclosed with
  | nil => rfl
  | character unquoted unescaped _ inductionHypothesis =>
    rw [List.cons_append, throughQuote, inductionHypothesis]
    · rfl
    · exact unquoted
    · exact fun _ _ backslash => absurd backslash unescaped
  | escaped _ inductionHypothesis =>
    rw [List.cons_append, List.cons_append, throughQuote, inductionHypothesis]
    rfl

/-! ## Tokens with blanks between them -/

/-- The tokens written one behind the other, with blanks anywhere before, between and behind
them. -/
inductive Spaced : List (List Char) → List Char → Prop where
  | nil : Spaced [] []
  | blank {c : Char} {tokens : List (List Char)} {text : List Char} (space : isSpace c)
    (rest : Spaced tokens text) : Spaced tokens (c :: text)
  | token {token : List Char} {tokens : List (List Char)} {text : List Char}
    (valid : IsToken token) (rest : Spaced tokens text) :
    Spaced (token :: tokens) (token ++ text)

/-- More blanks may be written in front. -/
theorem Spaced.blanks {blanks text : List Char} {tokens : List (List Char)}
    (blank : ∀ c ∈ blanks, isSpace c) (rest : Spaced tokens text) :
    Spaced tokens (blanks ++ text) := by
  induction blanks with
  | nil => exact rest
  | cons c others inductionHypothesis =>
    obtain ⟨space, spaces⟩ := List.forall_mem_cons.mp blank
    exact .blank space (inductionHypothesis spaces)

/-- Tokens that are written without any blanks are spaced as well. -/
theorem Spaced.flatten {tokens : List (List Char)} (valid : ∀ token ∈ tokens, IsToken token) :
    Spaced tokens tokens.flatten := by
  induction tokens with
  | nil => exact .nil
  | cons token others inductionHypothesis =>
    obtain ⟨first, more⟩ := List.forall_mem_cons.mp valid
    exact .token first (inductionHypothesis more)

/-- Whether the token is a run of characters that another run could continue. -/
def isRun (token : List Char) : Bool := token.head?.any isRunChar

/-- No two runs are neighbours. -/
def Apart (tokens : List (List Char)) : Prop :=
  tokens.IsChain fun token next => (isRun token && isRun next) = false

/-- A single token has no neighbours. -/
theorem Apart.singleton (token : List Char) : Apart [token] := List.isChain_singleton token

/-- A token that is no run may stand in front. -/
theorem Apart.cons {token : List Char} {tokens : List (List Char)} (apart : Apart tokens)
    (bounded : isRun token = false) : Apart (token :: tokens) := by
  refine List.isChain_cons.mpr ⟨fun next _ => ?_, apart⟩
  simp [bounded]

/-- Two lists of tokens may be joined where the second one begins with a token that is no run. -/
theorem Apart.append {before behind : List (List Char)} {token : List Char}
    (apart : Apart before) (bounded : isRun token = false) (others : Apart (token :: behind)) :
    Apart (before ++ token :: behind) := by
  refine List.isChain_append.mpr ⟨apart, others, fun last _ next first => ?_⟩
  obtain rfl : token = next := by simpa using first
  simp [bounded]

/-- No token of JSON is empty. -/
theorem IsToken.ne_nil {token : List Char} (valid : IsToken token) : token ≠ [] := by
  cases valid with
  | mark _ => simp
  | literal _ => simp
  | scalar valued => exact valued.scalarChars.1

/-- The marks are visible. -/
theorem isSpace_of_isMark {c : Char} (marks : isMark c) : isSpace c = false := by
  simp only [isMark, Bool.or_eq_true, decide_eq_true_eq] at marks
  rcases marks with ((((rfl | rfl) | rfl) | rfl) | rfl) | rfl <;> rfl

/-- What is written behind a run does not continue it. It is a blank, or the first character of a
token that is no run. -/
theorem Spaced.head_not_run {tokens : List (List Char)} {text : List Char}
    (spaced : Spaced tokens text) (apart : ∀ token ∈ tokens.head?, isRun token = false) :
    ∀ c ∈ text.head?, isRunChar c = false := by
  cases spaced with
  | nil => simp
  | blank space _ => simp [isRunChar, space]
  | @token token tokens text valid rest =>
    have first := apart token rfl
    cases token with
    | nil => exact absurd rfl valid.ne_nil
    | cons c others => simpa [isRun] using first

/-- A scalar is read to its end and no further. Its characters are taken as far as they belong to a
run, which the text behind it does not continue. -/
theorem lexemes_scalar {token text : List Char} (valued : IsScalar token)
    (ends : ∀ c ∈ text.head?, isRunChar c = false) :
    lexemes (token ++ text) = token :: lexemes text := by
  obtain ⟨c, others, rfl, scalar, scalars⟩ := valued.uncons
  have first := isRunChar_of_isScalarChar scalar
  have runs : ∀ next ∈ others, isRunChar next :=
    fun next member => isRunChar_of_isScalarChar (scalars next member)
  simp only [isRunChar, Bool.and_eq_true, Bool.not_eq_true', decide_eq_true_eq] at first
  obtain ⟨⟨space, mark⟩, quote⟩ := first
  have taken : text.takeWhile isRunChar = [] := by
    cases text with
    | nil => rfl
    | cons next _ => simp [ends next rfl]
  have dropped : text.dropWhile isRunChar = text := by
    cases text with
    | nil => rfl
    | cons next _ => simp [ends next rfl]
  rw [List.cons_append, lexemes, if_neg (by simp [space]), if_neg (by simp [mark]), if_neg quote,
    List.takeWhile_append_of_pos runs, List.dropWhile_append_of_pos runs, taken, dropped,
    List.append_nil]

/-- Tokens with blanks between them are read back, when no two runs are neighbours. By induction
over the text: a mark is a lexeme by itself, a literal goes to its closing quote, and a scalar ends
in front of what is no part of a run. -/
theorem Spaced.lexemes_eq {tokens : List (List Char)} {text : List Char}
    (spaced : Spaced tokens text) (apart : Apart tokens) : lexemes text = tokens := by
  induction spaced with
  | nil => simp [lexemes]
  | blank space _ inductionHypothesis =>
    rw [lexemes, if_pos space, inductionHypothesis apart]
  | @token token tokens text valid rest inductionHypothesis =>
    obtain ⟨neighbour, others⟩ := List.isChain_cons.mp apart
    have read := inductionHypothesis others
    cases valid with
    | mark marks =>
      rw [List.singleton_append, lexemes, if_neg (by simp [isSpace_of_isMark marks]),
        if_pos marks, read]
    | @literal body inside =>
      have closed := inside.enclosed.throughQuote_eq text
      rw [List.cons_append, List.cons_append, List.append_assoc, List.singleton_append, lexemes,
        if_neg (by decide), if_neg (by decide), if_pos rfl, closed, read]
    | scalar valued =>
      have run : isRun token := by
        obtain ⟨c, others, rfl, scalar, _⟩ := valued.uncons
        exact isRunChar_of_isScalarChar scalar
      have ends := rest.head_not_run fun next member => by
        simpa [run] using neighbour next member
      rw [lexemes_scalar valued ends, read]

end Parlance.Json
