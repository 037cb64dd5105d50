import Mathlib.Tactic.MkIffOfInductiveProp
import Parlance.Proofs.Literal.Numerals
import Parlance.Tagging

/-!
# What integer literals denote

The notations of integers are stated here by themselves: a magnitude is a number behind `0x`, before
`h`, behind a zero in octal, or else in decimal; and an integer is a magnitude with or without a
minus sign. The notations exclude each other, except that a number in octal is one in decimal too,
so that a text denotes one integer at most.

Reading a literal takes it apart by its notation, adds up its digits in 128 bits, applies the sign
and tests for 64 bits. Since 64 bits hold nothing that 128 bits do not, the two tests for overflow
come to one.
-/

namespace Parlance.Literal

/-! ## Notations -/

/-- The magnitude that a literal without its sign denotes. -/
@[mk_iff]
inductive Magnitude : List Char → Nat → Prop where
  | prefixed {mark : Char} {digits : List Char} {number : Nat} (marks : mark = 'x' ∨ mark = 'X')
      (numeral : Numeral 16 digits number) : Magnitude ('0' :: mark :: digits) number
  | suffixed {first : Char} {digits : List Char} {value number : Nat}
      (decimal : WritesDigit 10 first value) (numeral : Numeral 16 (first :: digits) number) :
      Magnitude (first :: digits ++ ['h']) number
  | octal {digits : List Char} {number : Nat} (several : digits ≠ [])
      (numeral : Numeral 8 ('0' :: digits) number) : Magnitude ('0' :: digits) number
  | decimal {digits : List Char} {number : Nat} (numeral : Numeral 10 digits number)
      (single : ∀ others octal, digits = '0' :: others → Numeral 8 digits octal → others = []) :
      Magnitude digits number

/-- The integer that a literal denotes. -/
@[mk_iff]
inductive Denotes : List Char → Int → Prop where
  | unsigned {body : List Char} {number : Nat} (magnitude : Magnitude body number) :
      Denotes body number
  | negative {body : List Char} {number : Nat} (magnitude : Magnitude body number) :
      Denotes ('-' :: body) (-number)

/-! ## Which notation a text is in -/

/-- What is found behind a start is the rest of a text that begins with it. It is found there and
nowhere else. -/
theorem behind?_eq_some_iff {start text rest : List Char} :
    behind? start text = some rest ↔ text = start ++ rest := by
  rw [behind?]
  split
  case isTrue begins =>
    obtain ⟨more, rfl⟩ := List.isPrefixOf_iff_prefix.mp begins
    simp [eq_comm]
  case isFalse others =>
    constructor
    · nofun
    · rintro rfl
      exact absurd (List.isPrefixOf_iff_prefix.mpr (List.prefix_append _ _)) others

/-- What is found before an end is the front of a text that ends with it. It is found there and
nowhere else. -/
theorem before?_eq_some_iff {final text front : List Char} :
    before? final text = some front ↔ text = front ++ final := by
  rw [before?]
  split
  case isTrue ends =>
    obtain ⟨more, rfl⟩ := List.isSuffixOf_iff_suffix.mp ends
    simp [eq_comm]
  case isFalse others =>
    constructor
    · nofun
    · rintro rfl
      exact absurd (List.isSuffixOf_iff_suffix.mpr (List.suffix_append _ _)) others

/-- The text is marked as hexadecimal at its start. -/
def Prefixed (body : List Char) : Prop :=
  ∃ mark digits, (mark = 'x' ∨ mark = 'X') ∧ body = '0' :: mark :: digits

/-- The text is marked as hexadecimal at its end. -/
def Suffixed (body : List Char) : Prop := ∃ digits, body = digits ++ ['h']

/-- The test for a decimal digit accepts the characters that write one. Both say that the character
is looked up as a digit whose value is less than ten. -/
theorem isDecimal_iff {c : Char} :
    ('0' ≤ c && c ≤ '9') = true ↔ ∃ value, WritesDigit 10 c value := by
  have digit : ('0' ≤ c && c ≤ '9') = true ↔ (Escape.digitValue 10 c).isSome = true := by
    rw [Bool.and_eq_true, decide_eq_true_eq, decide_eq_true_eq]
    constructor
    · intro decimal
      have below : c.toNat - '0'.toNat < 10 := by
        have most : c.toNat ≤ '9'.toNat := decimal.2
        have nine : '9'.toNat = '0'.toNat + 9 := rfl
        omega
      rw [Escape.digitValue, if_pos decimal, Option.filter_some, if_pos (by simpa using below)]
      rfl
    · intro known
      rw [Option.isSome_iff_exists] at known
      obtain ⟨value, known⟩ := known
      simp only [Escape.digitValue, Option.filter_eq_some_iff, decide_eq_true_eq] at known
      obtain ⟨known, below⟩ := known
      split_ifs at known with decimal lower upper
      · exact decimal
      · rw [Option.some.injEq] at known
        omega
      · rw [Option.some.injEq] at known
        omega
  simp only [digit, Option.isSome_iff_exists, digitValue_eq_some_iff (show 10 ≤ 16 by decide)]

section

variable (negative : Bool) {body digits : List Char}

/-- Behind a hexadecimal mark at the start, hexadecimal digits make a form and nothing else does. -/
theorem integerBody?_prefixed {mark : Char} (marks : mark = 'x' ∨ mark = 'X') :
    integerBody? negative ('0' :: mark :: digits) =
      if areDigits 16 digits then some ⟨negative, digits, 16⟩ else none := by
  rcases marks with rfl | rfl <;> rfl

/-- Without a mark at the start, no digits are found behind one. -/
theorem hexadecimal?_eq_none (plain : ¬ Prefixed body) :
    (behind? ['0', 'x'] body).or (behind? ['0', 'X'] body) = none := by
  have absent (mark : Char) (marks : mark = 'x' ∨ mark = 'X') :
      behind? ['0', mark] body = none := by
    cases found : behind? ['0', mark] body with
    | none => rfl
    | some digits => exact absurd ⟨mark, digits, marks, behind?_eq_some_iff.mp found⟩ plain
  rw [absent 'x' (.inl rfl), absent 'X' (.inr rfl), Option.or_none]

/-- Before a hexadecimal mark at the end, hexadecimal digits make a form when the first of them is
decimal. A text with a mark at the start is not read like this. -/
theorem integerBody?_suffixed (plain : ¬ Prefixed (digits ++ ['h'])) :
    integerBody? negative (digits ++ ['h']) =
      if areDigits 16 digits && (digits.head?.map (fun c => '0' ≤ c && c ≤ '9')).getD false then
        some ⟨negative, digits, 16⟩
      else none := by
  rw [integerBody?, hexadecimal?_eq_none plain]
  simp only [before?_eq_some_iff.mpr rfl]

/-- Without a hexadecimal mark, a leading zero before octal digits makes an octal form, and decimal
digits make a decimal one. A single zero is decimal. -/
theorem integerBody?_plain (plain : ¬ Prefixed body) (bare : ¬ Suffixed body) :
    integerBody? negative body =
      if 1 < body.length && body.head? = some '0' && areDigits 8 body then
        some ⟨negative, body.tail, 8⟩
      else if areDigits 10 body then some ⟨negative, body, 10⟩
      else none := by
  have absent : before? ['h'] body = none := by
    cases found : before? ['h'] body with
    | none => rfl
    | some digits => exact absurd ⟨digits, before?_eq_some_iff.mp found⟩ bare
  rw [integerBody?, hexadecimal?_eq_none plain]
  simp only [absent]

end

section

variable {body digits : List Char} {number : Nat}

/-- A literal that is marked at the start denotes the number that its hexadecimal digits write. No
other notation begins with a zero and a mark. -/
theorem magnitude_prefixed_iff {mark : Char} (marks : mark = 'x' ∨ mark = 'X') :
    Magnitude ('0' :: mark :: digits) number ↔ Numeral 16 digits number := by
  constructor
  · intro magnitude
    have other : Escape.digitValue 16 mark = none := by rcases marks with rfl | rfl <;> decide
    have inside : mark ∈ '0' :: mark :: digits := by simp
    rcases (magnitude_iff _ _).mp magnitude with ⟨_, _, _, numeral, same⟩ |
      ⟨first, hex, _, _, numeral, same⟩ | ⟨_, _, numeral, same⟩ | ⟨numeral, _⟩
    · obtain ⟨-, -, rfl⟩ : '0' = '0' ∧ mark = _ ∧ digits = _ := by simpa using same
      exact numeral
    · rw [same] at inside
      rcases List.mem_append.mp inside with digit | last
      · exact absurd digit (numeral.notMem (by decide) other)
      · obtain rfl := List.mem_singleton.mp last
        rcases marks with eq | eq <;> exact absurd eq (by decide)
    · rw [same] at inside
      exact absurd inside (numeral.notMem (by decide) other)
    · exact absurd inside (numeral.notMem (by decide) other)
  · exact Magnitude.prefixed marks

/-- A literal that is marked at the end denotes the number that its hexadecimal digits write, if it
begins with a decimal digit. -/
theorem magnitude_suffixed_iff (plain : ¬ Prefixed (digits ++ ['h'])) :
    Magnitude (digits ++ ['h']) number ↔
      (∃ first, digits.head? = some first ∧ ∃ value, WritesDigit 10 first value) ∧
        Numeral 16 digits number := by
  constructor
  · intro magnitude
    have inside : 'h' ∈ digits ++ ['h'] := by simp
    have other : Escape.digitValue 16 'h' = none := by decide
    rcases (magnitude_iff _ _).mp magnitude with ⟨mark, hex, marks, _, same⟩ |
      ⟨first, hex, value, decimal, numeral, same⟩ | ⟨_, _, numeral, same⟩ | ⟨numeral, _⟩
    · exact absurd ⟨mark, hex, marks, same⟩ plain
    · obtain rfl := List.append_cancel_right same
      exact ⟨⟨first, rfl, value, decimal⟩, numeral⟩
    · rw [same] at inside
      exact absurd inside (numeral.notMem (by decide) other)
    · exact absurd inside (numeral.notMem (by decide) other)
  · rintro ⟨⟨first, head, value, decimal⟩, numeral⟩
    cases digits with
    | nil => nomatch head
    | cons c others =>
      obtain rfl := Option.some.inj head
      exact .suffixed decimal numeral

/-- A literal without a mark denotes an octal number when a zero is followed by octal digits, and
the decimal number of its digits when they are not all octal behind a zero. -/
theorem magnitude_plain_iff (plain : ¬ Prefixed body) (bare : ¬ Suffixed body) :
    Magnitude body number ↔
      (∃ others, others ≠ [] ∧ body = '0' :: others ∧ Numeral 8 body number) ∨
        Numeral 10 body number ∧
          ∀ others octal, body = '0' :: others → Numeral 8 body octal → others = [] := by
  constructor
  · intro magnitude
    rcases (magnitude_iff _ _).mp magnitude with ⟨mark, hex, marks, _, same⟩ |
      ⟨first, hex, _, _, _, same⟩ | ⟨others, several, numeral, same⟩ | decimal
    · exact absurd ⟨mark, hex, marks, same⟩ plain
    · exact absurd ⟨first :: hex, same⟩ bare
    · exact .inl ⟨others, several, same, same ▸ numeral⟩
    · exact .inr decimal
  · rintro (⟨others, several, rfl, numeral⟩ | ⟨numeral, single⟩)
    · exact .octal several numeral
    · exact .decimal numeral single

/-- No magnitude is written with a sign, so that a text does not have two readings as a negative
number. -/
theorem head?_ne_minus (magnitude : Magnitude body number) : body.head? ≠ some '-' := by
  have other : Escape.digitValue 16 '-' = none := by decide
  intro minus
  cases magnitude with
  | prefixed marks numeral => exact absurd minus (by simp)
  | octal several numeral => exact absurd minus (by simp)
  | suffixed decimal numeral =>
    obtain rfl : _ = '-' := Option.some.inj minus
    exact numeral.notMem (by decide) other List.mem_cons_self
  | decimal numeral single => exact numeral.notMem (by decide) other (List.mem_of_head? minus)

end

/-- The part `body` behind the sign is taken apart as it is read: it has no form and denotes
nothing, or it has a form whose digits write what it denotes. -/
def ReadsBody (negative : Bool) (body : List Char) : Prop :=
  (integerBody? negative body = none ∧ ∀ number, ¬ Magnitude body number) ∨
    ∃ digits base number, integerBody? negative body = some ⟨negative, digits, base⟩ ∧
      base ≤ 16 ∧ Numeral base digits number ∧ ∀ other, Magnitude body other ↔ other = number

/-- A notation accepts some texts, whose digits then write the magnitudes of the whole. It is
what the three notations have in common: with a mark in front, with a mark at the end, and
without any. -/
theorem readsBody_of_notation {negative : Bool} {body digits : List Char} {base : Nat}
    {accepted : Prop} [Decidable accepted] (small : base ≤ 16)
    (form : integerBody? negative body = if accepted then some ⟨negative, digits, base⟩ else none)
    (written : accepted → areDigits base digits = true)
    (denoted : ∀ number, Magnitude body number ↔ accepted ∧ Numeral base digits number) :
    ReadsBody negative body := by
  by_cases accepts : accepted
  · obtain ⟨number, numeral⟩ := (areDigits_iff small).mp (written accepts)
    refine .inr ⟨digits, base, number, form.trans (if_pos accepts), small, numeral, fun other => ?_⟩
    rw [denoted]
    constructor
    · rintro ⟨-, alike⟩
      exact alike.unique small numeral
    · rintro rfl
      exact ⟨accepts, numeral⟩
  · refine .inl ⟨form.trans (if_neg accepts), fun number magnitude => ?_⟩
    exact accepts ((denoted number).mp magnitude).1

/-- The test for octal numbers. It asks for a zero in front, something behind it, and octal digits
throughout. -/
theorem isOctal_iff {body : List Char} :
    (1 < body.length && body.head? = some '0' && areDigits 8 body) = true ↔
      ∃ others number, others ≠ [] ∧ body = '0' :: others ∧ Numeral 8 body number := by
  simp only [Bool.and_eq_true, decide_eq_true_eq, areDigits_iff (show 8 ≤ 16 by decide)]
  constructor
  · rintro ⟨⟨several, zero⟩, number, numeral⟩
    obtain ⟨others, rfl⟩ := List.head?_eq_some_iff.mp zero
    refine ⟨others, number, ?_, rfl, numeral⟩
    rintro rfl
    simp at several
  · rintro ⟨others, number, several, rfl, numeral⟩
    refine ⟨⟨?_, rfl⟩, number, numeral⟩
    have some : 0 < others.length := List.length_pos_iff.mpr several
    simpa using some

section

variable (negative : Bool) {body digits : List Char}

/-- What is marked at the start is taken apart as it is read. -/
theorem readsBody_prefixed {mark : Char} (marks : mark = 'x' ∨ mark = 'X') :
    ReadsBody negative ('0' :: mark :: digits) := by
  refine readsBody_of_notation (by decide) (integerBody?_prefixed negative marks) id
    fun number => ?_
  rw [magnitude_prefixed_iff marks, areDigits_iff (by decide)]
  exact ⟨fun numeral => ⟨⟨number, numeral⟩, numeral⟩, And.right⟩

/-- What is marked at the end, and not at the start, is taken apart as it is read. Its digits are
hexadecimal, and the first of them is decimal. -/
theorem readsBody_suffixed (plain : ¬ Prefixed (digits ++ ['h'])) :
    ReadsBody negative (digits ++ ['h']) := by
  refine readsBody_of_notation (by decide) (integerBody?_suffixed negative plain)
    (fun both => (Bool.and_eq_true_iff.mp both).1) fun number => ?_
  have leading : (digits.head?.map (fun c => '0' ≤ c && c ≤ '9')).getD false = true ↔
      ∃ first, digits.head? = some first ∧ ∃ value, WritesDigit 10 first value := by
    simp only [← isDecimal_iff]
    cases digits.head? <;> simp
  rw [magnitude_suffixed_iff plain, Bool.and_eq_true, areDigits_iff (by decide), leading]
  constructor
  · rintro ⟨decimal, numeral⟩
    exact ⟨⟨⟨number, numeral⟩, decimal⟩, numeral⟩
  · rintro ⟨⟨-, decimal⟩, numeral⟩
    exact ⟨decimal, numeral⟩

/-- What has no hexadecimal mark is taken apart as it is read. With a zero in front and only octal
digits behind it the body is octal, and it is decimal otherwise. -/
theorem readsBody_plain (plain : ¬ Prefixed body) (bare : ¬ Suffixed body) :
    ReadsBody negative body := by
  have form := integerBody?_plain negative plain bare
  by_cases octal : (1 < body.length && body.head? = some '0' && areDigits 8 body) = true
  · -- The zero in front is left out of the digits.
    rw [if_pos octal] at form
    obtain ⟨others, number, several, rfl, numeral⟩ := isOctal_iff.mp octal
    have taken : integerBody? negative ('0' :: others) =
        if True then some ⟨negative, others, 8⟩ else none :=
      form.trans (if_pos trivial).symm
    refine readsBody_of_notation (by decide) taken
      (fun _ => (areDigits_iff (by decide)).mpr ⟨number, numeral.of_zero_cons (by decide) several⟩)
      fun other => ?_
    rw [magnitude_plain_iff plain bare, true_and]
    constructor
    · rintro (⟨_, _, _, alike⟩ | ⟨_, single⟩)
      · exact alike.of_zero_cons (by decide) several
      · exact absurd (single others number rfl numeral) several
    · intro alike
      exact .inl ⟨others, several, rfl, alike.zero_cons (by decide)⟩
  · rw [if_neg octal] at form
    refine readsBody_of_notation (by decide) form id fun number => ?_
    rw [magnitude_plain_iff plain bare, areDigits_iff (by decide)]
    constructor
    · rintro (⟨others, several, same, numeral⟩ | ⟨numeral, _⟩)
      · exact absurd (isOctal_iff.mpr ⟨others, number, several, same, numeral⟩) octal
      · exact ⟨⟨number, numeral⟩, numeral⟩
    · rintro ⟨-, numeral⟩
      refine .inr ⟨numeral, fun others value same octalNumeral => ?_⟩
      by_contra several
      exact octal (isOctal_iff.mpr ⟨others, value, several, same, octalNumeral⟩)

end

/-- The notations are tried in the order in which they are told apart. -/
theorem readsBody (negative : Bool) (body : List Char) : ReadsBody negative body := by
  by_cases start : Prefixed body
  · obtain ⟨mark, digits, marks, rfl⟩ := start
    exact readsBody_prefixed negative marks
  · by_cases ending : Suffixed body
    · obtain ⟨digits, rfl⟩ := ending
      exact readsBody_suffixed negative start
    · exact readsBody_plain negative start ending

/-! ## The sign -/

/-- The integer of the given sign and magnitude. -/
def signed (negative : Bool) (magnitude : Nat) : Int :=
  if negative then -(magnitude : Int) else magnitude

/-- A text without a sign denotes its magnitude. -/
theorem denotes_of_ne_minus {text : List Char} {value : Int} (unsigned : text.head? ≠ some '-') :
    Denotes text value ↔ ∃ number, Magnitude text number ∧ value = signed false number := by
  constructor
  · intro denotes
    cases denotes with
    | unsigned magnitude => exact ⟨_, magnitude, rfl⟩
    | negative magnitude => exact absurd rfl unsigned
  · rintro ⟨number, magnitude, rfl⟩
    exact .unsigned magnitude

/-- A text with a sign denotes the negative number of the magnitude behind the sign. -/
theorem denotes_minus {body : List Char} {value : Int} :
    Denotes ('-' :: body) value ↔ ∃ number, Magnitude body number ∧ value = signed true number := by
  constructor
  · intro denotes
    cases denotes with
    | unsigned magnitude => exact absurd rfl (head?_ne_minus magnitude)
    | negative magnitude => exact ⟨_, magnitude, rfl⟩
  · rintro ⟨number, magnitude, rfl⟩
    exact .negative magnitude

/-- The whole text is taken apart as it is read: it has no form and denotes nothing, or it denotes
the integer that the digits of its form write, with its sign. -/
def ReadsText (text : List Char) : Prop :=
  (integerForm? text = none ∧ ∀ value, ¬ Denotes text value) ∨
    ∃ form number, integerForm? text = some form ∧ form.base ≤ 16 ∧
      Numeral form.base form.digits number ∧
      ∀ value, Denotes text value ↔ value = signed form.negative number

/-- A text is taken apart as it is read when the part behind its sign is, whichever sign it has. The
sign is the only thing that is put in front of a body. -/
theorem readsText_of_body {text body : List Char} {negative : Bool}
    (form : integerForm? text = integerBody? negative body)
    (denoted : ∀ value, Denotes text value ↔
      ∃ number, Magnitude body number ∧ value = signed negative number) :
    ReadsText text := by
  unfold ReadsText
  simp only [denoted]
  rcases readsBody negative body with
    ⟨none, nothing⟩ | ⟨digits, base, number, some, small, numeral, only⟩
  · refine .inl ⟨form.trans none, ?_⟩
    rintro value ⟨number, magnitude, -⟩
    exact nothing number magnitude
  · refine .inr ⟨_, number, form.trans some, small, numeral, fun value => ?_⟩
    simp only [only, exists_eq_left]

/-- Every text is taken apart as it is read. The sign is looked for first, and then the marks of the
part behind it decide upon the notation. -/
theorem readsText (text : List Char) : ReadsText text := by
  by_cases minus : text.head? = some '-'
  · obtain ⟨body, rfl⟩ := List.head?_eq_some_iff.mp minus
    exact readsText_of_body rfl fun value => denotes_minus
  · refine readsText_of_body ?_ fun value => denotes_of_ne_minus minus
    cases text with
    | nil => rfl
    | cons c body =>
      have other : c ≠ '-' := by simpa using minus
      simp [integerForm?, other]

/-! ## Values -/

/-- An accepted literal is read to what it denotes, or it overflows 64 bits. The wide number that
is read first has room for all that fits into 64 bits, so what overflows there is out of range
anyway. -/
theorem integer_of_form {text : String} {form : IntegerForm} {number : Nat}
    (found : integerForm? text.toList = some form) (small : form.base ≤ 16)
    (numeral : Numeral form.base form.digits number) :
    integer text =
      if -2 ^ 63 ≤ signed form.negative number ∧ signed form.negative number < 2 ^ 63 then
        .ok (signed form.negative number)
      else .error (.integerOverflow text) := by
  have bounds (value : Int) : (leastInteger ≤ value ∧ value ≤ greatestInteger) ↔
      (-2 ^ 63 ≤ value ∧ value < 2 ^ 63) := by
    rw [leastInteger, greatestInteger]
    omega
  rw [integer, found]
  simp only [IntegerForm.value?, numeral.wide?_eq small]
  by_cases fits : number ≤ greatestWide
  · simp only [if_pos fits, Option.map_some, bounds]
    rfl
  · have outside : ¬ (-2 ^ 63 ≤ signed form.negative number ∧
        signed form.negative number < 2 ^ 63) := by
      rw [greatestWide] at fits
      rw [signed]
      split_ifs <;> omega
    rw [if_neg fits, if_neg outside]
    rfl

/-- A text without a form is no integer, and the error names the text. -/
theorem integer_of_none {text : String} (none : integerForm? text.toList = none) :
    integer text = .error (.notALiteral .integer text) := by
  rw [integer, none]

/-- The tagger of integers asks only whether the text has a form. -/
theorem tagger_integer_eq (text : String) :
    Tagger.integer text =
      if (integerForm? text.toList).isSome then some .integerLiteral else none := rfl

/-! ## Decimal notation is read back -/

/-- The decimal digits of a number write it. -/
theorem numeral_toDigits (number : Nat) : Numeral 10 (Nat.toDigits 10 number) number := by
  induction number using Nat.strong_induction_on with
  | _ number inductionHypothesis =>
    rcases Nat.lt_or_ge number 10 with single | several
    · rw [Nat.toDigits_of_lt_base single]
      exact .digit ⟨single, .inl rfl⟩
    · have split := (inductionHypothesis (number / 10) (by omega)).append
        (c := (number % 10).digitChar) ⟨Nat.mod_lt _ (by decide), .inl rfl⟩
      rwa [← Nat.toDigits_of_base_le (by decide) several, Nat.mul_comm, Nat.div_add_mod] at split

/-- Only zero is written with a zero in front. By strong induction: leaving out the last digit does
not change the first one, unless it is the only one. -/
theorem eq_zero_of_head?_toDigits {number : Nat}
    (zero : (Nat.toDigits 10 number).head? = some '0') :
    number = 0 := by
  induction number using Nat.strong_induction_on with
  | _ number inductionHypothesis =>
    rcases Nat.lt_or_ge number 10 with single | several
    · rw [Nat.toDigits_of_lt_base single] at zero
      simpa using zero
    · rw [Nat.toDigits_of_base_le (by decide) several, List.head?_append,
        Option.or_of_isSome (List.isSome_head?.mpr Nat.toDigits_ne_nil)] at zero
      have nothing := inductionHypothesis (number / 10) (by omega) zero
      omega

/-- The decimal digits of a number are a literal for it. Other than zero, a number has no leading
zero that would make its digits octal, and they end in no hexadecimal mark. -/
theorem magnitude_toDigits (number : Nat) : Magnitude (Nat.toDigits 10 number) number := by
  refine .decimal (numeral_toDigits number) fun others octal same _ => ?_
  have zero : (Nat.toDigits 10 number).head? = some '0' := by rw [same]; rfl
  obtain rfl := eq_zero_of_head?_toDigits zero
  exact (List.cons.inj (same.symm.trans (Nat.toDigits_zero 10))).2

/-- A number in its decimal notation is a literal that denotes it. It has no mark of another base,
and no zero in front unless it is zero. -/
theorem denotes_toString (value : Int) : Denotes (toString value).toList value := by
  cases value with
  | ofNat number =>
    have written : (toString (Int.ofNat number)).toList = Nat.toDigits 10 number :=
      Nat.toList_repr
    rw [written]
    exact .unsigned (magnitude_toDigits number)
  | negSucc number =>
    have written : (toString (Int.negSucc number)).toList =
        '-' :: Nat.toDigits 10 (number + 1) := by
      rw [← Nat.toList_repr]
      exact String.toList_append
    rw [written]
    exact .negative (magnitude_toDigits (number + 1))

/-- A text is refused as an integer exactly when no tagger takes it for one, which is when it
denotes none. Otherwise it denotes one integer and is read to it, or overflows when 64 bits do not
hold it. So every integer of 64 bits is read back from its decimal notation. -/
theorem integer_exact (text : String) :
    (integer text = .error (.notALiteral .integer text) ↔ Tagger.integer text = none) ∧
    ((Tagger.integer text).isSome ↔ ∃ value, Denotes text.toList value) ∧
    (∀ value, Denotes text.toList value → (∀ other, Denotes text.toList other → other = value) ∧
      integer text =
        if -2 ^ 63 ≤ value ∧ value < 2 ^ 63 then .ok value else .error (.integerOverflow text)) ∧
    ∀ value : Int, -2 ^ 63 ≤ value → value < 2 ^ 63 → integer (toString value) = .ok value := by
  have denoted (text : String) (value : Int) (denotes : Denotes text.toList value) :
      (∀ other, Denotes text.toList other → other = value) ∧ integer text =
        if -2 ^ 63 ≤ value ∧ value < 2 ^ 63 then .ok value else .error (.integerOverflow text) := by
    rcases readsText text.toList with
      ⟨-, nothing⟩ | ⟨form, number, found, small, numeral, only⟩
    · exact absurd denotes (nothing value)
    · obtain rfl := (only value).mp denotes
      exact ⟨fun other alike => (only other).mp alike, integer_of_form found small numeral⟩
  refine ⟨?_, ?_, denoted text, ?_⟩
  · rw [tagger_integer_eq]
    rcases readsText text.toList with ⟨none, -⟩ | ⟨form, number, found, small, numeral, -⟩
    · simp [integer_of_none none, none]
    · rw [integer_of_form found small numeral, found, if_pos (Option.isSome_some)]
      split_ifs <;> simp
  · rw [tagger_integer_eq]
    rcases readsText text.toList with ⟨none, nothing⟩ | ⟨form, number, found, _, _, only⟩
    · simp [none, nothing]
    · simp [found, only]
  · intro value least most
    rw [(denoted _ value (denotes_toString value)).2, if_pos ⟨least, most⟩]

/-- The least integer of 64 bits is read, and its magnitude overflows. Both are read off the general
theorem, once the magnitude of the digits is known. -/
theorem leastInteger_exact :
    integer "-8000000000000000h" = .ok (-2 ^ 63) ∧
    integer "8000000000000000h" = .error (.integerOverflow "8000000000000000h") ∧
    integer (toString (-2 ^ 63 : Int)) = .ok (-2 ^ 63) := by
  have magnitude : Magnitude "8000000000000000h".toList (2 ^ 63) := by
    obtain ⟨number, numeral⟩ := (areDigits_iff (show 16 ≤ 16 by decide)).mp
      (show areDigits 16 "8000000000000000".toList = true by decide)
    obtain rfl : number = 2 ^ 63 := (numeral.foldl_eq (by decide)).symm.trans (by decide)
    have decimal : WritesDigit 10 '8' 8 := ⟨by decide, .inl rfl⟩
    exact .suffixed decimal numeral
  refine ⟨?_, ?_, ?_⟩
  · have read := ((integer_exact "-8000000000000000h").2.2.1 _ (.negative magnitude)).2
    exact read.trans (if_pos (by decide))
  · have read := ((integer_exact "8000000000000000h").2.2.1 _ (.unsigned magnitude)).2
    exact read.trans (if_neg (by decide))
  · exact (integer_exact "").2.2.2 (-2 ^ 63) (by decide) (by decide)

end Parlance.Literal
