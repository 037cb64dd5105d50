import Mathlib.Data.List.TakeWhile
import Parlance.Literal.Floating

/-!
# Floating literals in the standard notation

The standard notation of decimal numbers is stated here as a grammar: an optional sign, digits, of
which some stand before a point, some behind it, or all without one, and an optional exponent. The
reader of decimal numbers accepts exactly the texts of this grammar.

A floating literal is recognized in another way, by counting: a mantissa has at most one point and
at least one digit, and ends where the first `e` or `E` is. Every text that is recognized so is in
the grammar, so that a floating literal is always read to a number. The grammar has more texts: a
literal has no plus sign in front.
-/

namespace Parlance.Literal

/-! ## The grammar -/

/-- An optional sign. -/
def IsSign (text : List Char) : Prop := text = [] ∨ text = ['-'] ∨ text = ['+']

/-- Decimal digits, or none. -/
def AreDecimal (text : List Char) : Prop := ∀ c ∈ text, isDecimalDigit c = true

/-- Digits with or without a point. -/
inductive Significand : List Char → Prop where
  | whole {digits : List Char} (some : digits ≠ []) (decimal : AreDecimal digits) :
      Significand digits
  | pointed {before behind : List Char} (some : before ≠ [] ∨ behind ≠ [])
      (whole : AreDecimal before) (places : AreDecimal behind) :
      Significand (before ++ '.' :: behind)

/-- A mark, an optional sign and digits. -/
inductive Exponent : List Char → Prop where
  | marked {mark : Char} {sign digits : List Char} (marks : mark = 'e' ∨ mark = 'E')
      (signed : IsSign sign) (some : digits ≠ []) (decimal : AreDecimal digits) :
      Exponent (mark :: (sign ++ digits))

/-- A decimal number in the standard notation. -/
def IsDecimal (text : List Char) : Prop :=
  ∃ sign significand exponent, text = sign ++ (significand ++ exponent) ∧ IsSign sign ∧
    Significand significand ∧ (exponent = [] ∨ Exponent exponent)

/-! ## Signs -/

/-- The letter of an exponent is small or capital. -/
theorem marksExponent_iff {mark : Char} : marksExponent mark = true ↔ mark = 'e' ∨ mark = 'E' := by
  simp [marksExponent]

/-- What is behind a sign is behind some sign. The sign may be a minus, a plus, or nothing. -/
theorem unsigned_eq (text : List Char) : ∃ sign, IsSign sign ∧ text = sign ++ unsigned text := by
  rw [unsigned]
  split
  case isTrue signs =>
    rw [Bool.or_eq_true, decide_eq_true_eq, decide_eq_true_eq] at signs
    rcases signs with minus | plus
    · obtain ⟨rest, rfl⟩ := List.head?_eq_some_iff.mp minus
      exact ⟨['-'], .inr (.inl rfl), rfl⟩
    · obtain ⟨rest, rfl⟩ := List.head?_eq_some_iff.mp plus
      exact ⟨['+'], .inr (.inr rfl), rfl⟩
  case isFalse plain => exact ⟨[], .inl rfl, rfl⟩

/-- A sign is taken off a text that does not go on with another one. Where there is no sign, the
text must not begin with one itself. -/
theorem unsigned_append {sign rest : List Char} (signed : IsSign sign)
    (plain : ∀ c ∈ rest.head?, isDecimalDigit c = true ∨ c = '.') :
    unsigned (sign ++ rest) = rest := by
  rcases signed with rfl | rfl | rfl
  · have minus : rest.head? ≠ some '-' := by
      intro head
      exact absurd (plain '-' head) (by decide)
    have plus : rest.head? ≠ some '+' := by
      intro head
      exact absurd (plain '+' head) (by decide)
    simp [unsigned, minus, plus]
  · rfl
  · rfl

/-! ## Exponents -/

/-- An exponent is its letter with digits behind it, and perhaps a sign between them. A digit is no
sign, so the sign is told from what is behind it. -/
theorem exponent_iff {mark : Char} {text : List Char} :
    Exponent (mark :: text) ↔
      (mark = 'e' ∨ mark = 'E') ∧ unsigned text ≠ [] ∧ AreDecimal (unsigned text) := by
  constructor
  · intro exponent
    cases exponent with
    | @marked _ sign digits marks signed some decimal =>
      have digitsOnly : unsigned (sign ++ digits) = digits := by
        refine unsigned_append signed fun c head => .inl ?_
        exact decimal c (List.mem_of_head? head)
      rw [digitsOnly]
      exact ⟨marks, some, decimal⟩
  · rintro ⟨marks, some, decimal⟩
    obtain ⟨sign, signed, same⟩ := unsigned_eq text
    rw [same]
    exact .marked marks signed some decimal

/-- The test for digits behind a sign. -/
theorem isExponent_iff {text : List Char} :
    (!(unsigned text).isEmpty && (unsigned text).all isDecimalDigit) = true ↔
      unsigned text ≠ [] ∧ AreDecimal (unsigned text) := by
  rw [Bool.and_eq_true, Bool.not_eq_true', List.isEmpty_eq_false_iff, List.all_eq_true]
  rfl

/-- The reader of exponents accepts an exponent, or that there is none. The reader and the
definition ask for the same things in another order. -/
theorem exponent?_isSome_iff {text : List Char} :
    (exponent? text).isSome = true ↔ text = [] ∨ Exponent text := by
  cases text with
  | nil => simp [exponent?]
  | cons mark text =>
    have test : (exponent? (mark :: text)).isSome = (marksExponent mark &&
        (!(unsigned text).isEmpty && (unsigned text).all isDecimalDigit)) := by
      rw [exponent?, ← Bool.and_assoc]
      split
      case isTrue accepted => exact accepted.symm
      case isFalse refused => exact (Bool.eq_false_iff.mpr refused).symm
    rw [test, Bool.and_eq_true, marksExponent_iff, isExponent_iff, exponent_iff]
    simp

/-- What the tagger takes for an exponent behind its letter is one in the standard notation. -/
theorem exponent_of_isExponent {mark : Char} {text : List Char} (marks : marksExponent mark = true)
    (accepted : isExponent text = true) : Exponent (mark :: text) :=
  exponent_iff.mpr ⟨marksExponent_iff.mp marks, isExponent_iff.mp accepted⟩

/-- No digit and no point begins an exponent or the end. -/
theorem head?_of_exponent {text : List Char} (exponent : text = [] ∨ Exponent text) :
    ∀ c ∈ text.head?, isDecimalDigit c = false ∧ c ≠ '.' := by
  rcases exponent with rfl | exponent
  · simp
  · cases exponent with
    | marked marks _ _ _ =>
      intro c head
      obtain rfl := Option.some.inj head
      rcases marks with rfl | rfl <;> decide

/-! ## The reader accepts the grammar -/

section

variable {before behind rest : List Char}

/-- The digits at the beginning of a text are told from the rest by the first character that is
none. -/
theorem takeWhile_digits (decimal : AreDecimal before)
    (ends : ∀ c ∈ rest.head?, isDecimalDigit c = false) :
    (before ++ rest).takeWhile isDecimalDigit = before ∧
      (before ++ rest).dropWhile isDecimalDigit = rest := by
  have taken : rest.takeWhile isDecimalDigit = [] := by
    cases rest with
    | nil => rfl
    | cons c others => exact List.takeWhile_cons_of_neg (by simp [ends c rfl])
  have dropped : rest.dropWhile isDecimalDigit = rest := by
    cases rest with
    | nil => rfl
    | cons c others => exact List.dropWhile_cons_of_neg (by simp [ends c rfl])
  rw [List.takeWhile_append_of_pos decimal, List.dropWhile_append_of_pos decimal, taken, dropped,
    List.append_nil]
  exact ⟨rfl, rfl⟩

/-- Digits are cut off up to where they end, with a point among them or without one. The point ends
the first digits, and what does not begin with a digit ends the second ones. -/
theorem cutDigits_pointed (whole : AreDecimal before) (places : AreDecimal behind)
    (ends : ∀ c ∈ rest.head?, isDecimalDigit c = false) :
    cutDigits (before ++ '.' :: (behind ++ rest)) = (before, behind, rest) := by
  have point : ∀ c ∈ ('.' :: (behind ++ rest)).head?, isDecimalDigit c = false := by
    intro c head
    obtain rfl := Option.some.inj head
    decide
  have first := takeWhile_digits whole point
  have second := takeWhile_digits places ends
  rw [cutDigits, first.1, first.2]
  simp only [second.1, second.2]

/-- Digits without a point behind them are cut off as an integer without places. -/
theorem cutDigits_whole (whole : AreDecimal before)
    (ends : ∀ c ∈ rest.head?, isDecimalDigit c = false ∧ c ≠ '.') :
    cutDigits (before ++ rest) = (before, [], rest) := by
  have first := takeWhile_digits whole fun c head => (ends c head).1
  rw [cutDigits, first.1, first.2]
  split
  case h_1 => exact absurd rfl (ends '.' rfl).2
  case h_2 => rfl

/-- What is cut off is a significand if it has a digit, and it is the start of the text. The digits
go on behind a point, if there is one right behind the first of them. -/
theorem cutDigits_cases (text : List Char) :
    ∃ before behind rest significand, cutDigits text = (before, behind, rest) ∧
      text = significand ++ rest ∧
      (before ≠ [] ∨ behind ≠ [] → Significand significand) := by
  have decimal (text : List Char) : AreDecimal (text.takeWhile isDecimalDigit) :=
    fun c member => List.mem_takeWhile_imp member
  have joined := (List.takeWhile_append_dropWhile (p := isDecimalDigit) (l := text)).symm
  rw [cutDigits]
  split
  case h_1 behind pointed =>
    have rejoined := (List.takeWhile_append_dropWhile (p := isDecimalDigit) (l := behind)).symm
    refine ⟨_, _, _, text.takeWhile isDecimalDigit ++ '.' :: behind.takeWhile isDecimalDigit,
      rfl, ?_, fun some => .pointed some (decimal text) (decimal behind)⟩
    rw [List.append_assoc, List.cons_append, ← rejoined, ← pointed]
    exact joined
  case h_2 =>
    refine ⟨_, _, _, text.takeWhile isDecimalDigit, rfl, joined, fun some => ?_⟩
    exact .whole (some.resolve_right (· rfl)) (decimal text)

/-- A text is read when some digits are cut off and an exponent or nothing is left. -/
theorem decimal?_isSome_of_cut {text : List Char}
    (cut : cutDigits (unsigned text) = (before, behind, rest)) :
    (decimal? text).isSome = true ↔
      (before ≠ [] ∨ behind ≠ []) ∧ (rest = [] ∨ Exponent rest) := by
  rw [decimal?, cut, ← exponent?_isSome_iff]
  by_cases nothing : before = [] ∧ behind = []
  · simp [nothing]
  · have some : before ≠ [] ∨ behind ≠ [] := not_and_or.mp nothing
    simp [nothing, some]

end

/-- The standard notation is what the reader accepts. In both directions the text is cut where
the reader cuts it: behind the sign, behind the digits, at the point, and at the mark of the
exponent. -/
theorem decimal?_isSome_iff {text : List Char} :
    (decimal? text).isSome = true ↔ IsDecimal text := by
  constructor
  · intro accepted
    obtain ⟨sign, signed, same⟩ := unsigned_eq text
    obtain ⟨before, behind, rest, significand, cut, joined, digits⟩ :=
      cutDigits_cases (unsigned text)
    obtain ⟨some, exponent⟩ := (decimal?_isSome_of_cut cut).mp accepted
    exact ⟨sign, significand, rest, by rw [← joined, ← same], signed, digits some, exponent⟩
  · rintro ⟨sign, significand, exponent, rfl, signed, digits, accepted⟩
    have ends := head?_of_exponent accepted
    cases digits with
    | whole some decimal =>
      have bare : unsigned (sign ++ (significand ++ exponent)) = significand ++ exponent := by
        refine unsigned_append signed fun c head => .inl (decimal c ?_)
        cases significand with
        | nil => exact absurd rfl some
        | cons first others =>
          obtain rfl := Option.some.inj head
          exact List.mem_cons_self
      have cut : cutDigits (unsigned (sign ++ (significand ++ exponent))) =
          (significand, [], exponent) := by
        rw [bare, cutDigits_whole decimal ends]
      exact (decimal?_isSome_of_cut cut).mpr ⟨.inl some, accepted⟩
    | @pointed before behind some whole places =>
      have bare : unsigned (sign ++ (before ++ '.' :: behind ++ exponent)) =
          before ++ '.' :: (behind ++ exponent) := by
        rw [List.append_assoc, List.cons_append]
        refine unsigned_append signed fun c head => ?_
        cases before with
        | nil => exact .inr (Option.some.inj head).symm
        | cons first others =>
          obtain rfl := Option.some.inj head
          exact .inl (whole _ List.mem_cons_self)
      have cut : cutDigits (unsigned (sign ++ (before ++ '.' :: behind ++ exponent))) =
          (before, behind, exponent) := by
        rw [bare, cutDigits_pointed whole places fun c head => (ends c head).1]
      exact (decimal?_isSome_of_cut cut).mpr ⟨some, accepted⟩

/-! ## Literals are in the grammar -/

/-- At most one point among digits, and a digit, make a significand. Without a point all characters
are digits; with one, the point divides them into two parts, not both of which are empty. -/
theorem significand_of_count {body : List Char}
    (characters : ∀ c ∈ body, c = '.' ∨ isDecimalDigit c = true) (points : body.count '.' ≤ 1)
    (digit : ∃ c ∈ body, isDecimalDigit c = true) : Significand body := by
  by_cases pointed : '.' ∈ body
  · obtain ⟨before, behind, rfl, absent⟩ := List.eq_append_cons_of_mem pointed
    have single : '.' ∉ behind := by
      rw [List.count_append, List.count_cons_self] at points
      exact List.count_eq_zero.mp (by omega)
    have decimal {part : List Char} (within : part ⊆ before ++ '.' :: behind) (none : '.' ∉ part) :
        AreDecimal part := by
      intro c member
      refine (characters c (within member)).resolve_left ?_
      rintro rfl
      exact none member
    refine .pointed ?_ (decimal (by simp) absent) (decimal (by simp) single)
    obtain ⟨c, member, digit⟩ := digit
    rcases List.mem_append.mp member with inside | inside
    · exact .inl (List.ne_nil_of_mem inside)
    · rcases List.mem_cons.mp inside with rfl | inside
      · nomatch digit
      · exact .inr (List.ne_nil_of_mem inside)
  · obtain ⟨c, member, -⟩ := digit
    refine .whole (List.ne_nil_of_mem member) fun c member => ?_
    refine (characters c member).resolve_left ?_
    rintro rfl
    exact pointed member

/-- A mantissa is a significand behind an optional minus sign. The rest has only digits and points
in it, at most one point, and a digit. -/
theorem significand_of_isMantissa {text : List Char} (accepted : isMantissa text = true) :
    ∃ sign significand, text = sign ++ significand ∧ IsSign sign ∧ Significand significand := by
  have counted (body : List Char)
      (accepted : (body.all (fun c => c = '.' || isDecimalDigit c) && body.count '.' ≤ 1 &&
        body.any isDecimalDigit) = true) : Significand body := by
    simp only [Bool.and_eq_true, List.all_eq_true, List.any_eq_true, Bool.or_eq_true,
      decide_eq_true_eq] at accepted
    exact significand_of_count accepted.1.1 accepted.1.2 accepted.2
  rw [isMantissa] at accepted
  by_cases minus : text.head? = some '-'
  · rw [if_pos minus] at accepted
    obtain ⟨body, rfl⟩ := List.head?_eq_some_iff.mp minus
    exact ⟨['-'], body, rfl, .inr (.inl rfl), counted body accepted⟩
  · rw [if_neg minus] at accepted
    exact ⟨[], text, rfl, .inl rfl, counted text accepted⟩

/-- What has the form of a floating literal is in the grammar. What stands in front of the first
mark of an exponent is the significand with its sign, and what stands behind it are the digits of
the exponent with theirs. -/
theorem isDecimal_of_shape {text : List Char} {hasExponent : Bool}
    (shape : floatingShape? text = some hasExponent) : IsDecimal text := by
  have joined := List.takeWhile_append_dropWhile (p := fun c => !marksExponent c) (l := text)
  rw [floatingShape?] at shape
  split at shape
  case h_1 none =>
    split_ifs at shape with accepted
    obtain ⟨sign, significand, rfl, signed, digits⟩ := significand_of_isMantissa accepted
    exact ⟨sign, significand, [], by rw [List.append_nil], signed, digits, .inl rfl⟩
  case h_2 mark exponent marked =>
    split_ifs at shape with accepted
    rw [Bool.and_eq_true] at accepted
    have marks : marksExponent mark = true := by
      have head := List.head?_dropWhile_not (fun c => !marksExponent c) text
      rw [marked] at head
      simpa using head
    obtain ⟨sign, significand, same, signed, digits⟩ := significand_of_isMantissa accepted.1
    refine ⟨sign, significand, mark :: exponent, ?_, signed, digits,
      .inr (exponent_of_isExponent marks accepted.2)⟩
    rw [← joined, same, marked, List.append_assoc]

end Parlance.Literal
