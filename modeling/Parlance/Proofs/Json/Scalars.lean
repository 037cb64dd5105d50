import Parlance.Proofs.Json.Blurring
import Parlance.Proofs.Json.Lexemes

/-!
# Scalars are read before any tail

What is read at the beginning of a text should depend on the token that stands there and not on
what stands behind it. A word settles a reader when this holds before all tails of a kind. Values
are compared up to their faults: a number that breaks off at the end of the text is told apart
from one that breaks off before a blank.

A reader of scalars looks at characters of scalars only, and stops at the first other one. So it
gives the same for a run of such characters before every tail that does not continue the run. It
need not take the whole run, and what it leaves of it is the same, too.
-/

namespace Parlance.Json

/-! ## Readers that a word settles -/

/-- Reading gives no value, and nothing behind it can be read. -/
structure Reading.IsBroken (reading : Reading) : Prop where
  value : reading.1.blurred = .unusable .blurred (some .blurred)
  rest : reading.2 = none

/-- A reading that breaks off with a fault is broken, whatever the fault. -/
theorem broken_isBroken (lapse : Lapse) (unread : List Char) :
    (broken lapse unread).IsBroken := ⟨rfl, rfl⟩

/-- A number that the text breaks off is broken, although its fault depends on what follows. -/
theorem brokenNumber_isBroken : brokenNumber.IsBroken := ⟨rfl, rfl⟩

/-- Before all tails of a kind, the word is read to the same value and up to the same place in
it, or to no place. -/
def Settled (Tail : List Char → Prop) (read : List Char → Reading) (word : List Char) : Prop :=
  ∃ (value : Document) (left : Option (List Char)), (∀ rest ∈ left, rest <:+ word) ∧
    ∀ tail, Tail tail →
      (read (word ++ tail)).1.blurred = value ∧ (read (word ++ tail)).2 = left.map (· ++ tail)

section Settled

variable {Tail : List Char → Prop} {read : List Char → Reading} {word : List Char}

/-- A word at which reading always breaks is settled: no value, and nothing left. -/
theorem Settled.of_broken (breaks : ∀ tail, Tail tail → (read (word ++ tail)).IsBroken) :
    Settled Tail read word :=
  ⟨_, none, nofun, fun tail ends => ⟨(breaks tail ends).value, (breaks tail ends).rest⟩⟩

/-- A reader that goes on like another one does from a later place of the word. -/
theorem Settled.of_later {later : List Char → Reading} {behind : List Char}
    (settled : Settled Tail later behind) (suffix : behind <:+ word)
    (goesOn : ∀ tail, Tail tail → read (word ++ tail) = later (behind ++ tail)) :
    Settled Tail read word := by
  obtain ⟨value, left, within, reads⟩ := settled
  refine ⟨value, left, fun rest member => (within rest member).trans suffix, fun tail ends => ?_⟩
  rw [goesOn tail ends]
  exact reads tail ends

end Settled

/-! ## Words and numbers -/

/-- A text that does not continue a scalar. -/
def EndsScalar (text : List Char) : Prop := ∀ c ∈ text.head?, isScalarChar c = false

/-- A reader that has to find more of a scalar breaks at every end of one. -/
theorem settled_of_end {read : List Char → Reading} (ended : (read []).IsBroken)
    (stops : ∀ c rest, isScalarChar c = false → (read (c :: rest)).IsBroken) :
    Settled EndsScalar read [] := by
  refine .of_broken fun tail ends => ?_
  cases tail with
  | nil => exact ended
  | cons c rest => exact stops c rest (ends c rfl)

/-- The digits belong to the characters of scalars. -/
theorem isScalarChar_of_isDigit {c : Char} (digit : isDigit c) : isScalarChar c := by
  simp [isScalarChar, digit]

/-- What belongs to no scalar is no digit. -/
theorem isDigit_eq_false {c : Char} (other : isScalarChar c = false) : isDigit c = false := by
  by_contra digit
  rw [isScalarChar_of_isDigit (by simpa using digit)] at other
  cases other

/-- The digits at the beginning of a word are the same with something behind it that does not
continue a scalar. -/
theorem takeWhile_isDigit_append {tail : List Char} (ends : EndsScalar tail) (run : List Char) :
    (run ++ tail).takeWhile isDigit = run.takeWhile isDigit := by
  induction run with
  | nil =>
    cases tail with
    | nil => rfl
    | cons c rest => simp [isDigit_eq_false (ends c rfl)]
  | cons c rest inductionHypothesis =>
    rw [List.cons_append, List.takeWhile_cons, List.takeWhile_cons, inductionHypothesis]

/-- What follows the digits of a word is followed by what is behind the word, if that does not
continue a scalar. -/
theorem dropWhile_isDigit_append {tail : List Char} (ends : EndsScalar tail) (run : List Char) :
    (run ++ tail).dropWhile isDigit = run.dropWhile isDigit ++ tail := by
  induction run with
  | nil =>
    cases tail with
    | nil => rfl
    | cons c rest => simp [isDigit_eq_false (ends c rfl)]
  | cons c rest inductionHypothesis =>
    rw [List.cons_append, List.dropWhile_cons, List.dropWhile_cons, inductionHypothesis]
    split <;> rfl

/-- A word such as `true` is found in a run or not, whatever follows the run. A run that breaks off
inside of the word is not completed by what does not continue it. -/
theorem readWord_settled (value : Document) {letters : List Char}
    (scalars : letters.all isScalarChar) (run : List Char) :
    Settled EndsScalar (readWord value letters) run := by
  induction letters generalizing run with
  | nil => exact ⟨value.blurred, some run, by simp, fun _ _ => ⟨rfl, rfl⟩⟩
  | cons letter letters inductionHypothesis =>
    rw [List.all_cons, Bool.and_eq_true] at scalars
    obtain ⟨scalar, others⟩ := scalars
    cases run with
    | nil =>
      apply settled_of_end
      · exact broken_isBroken .truncated []
      · intro c rest other
        rw [readWord, if_neg (ne_of_class scalar c other).symm]
        exact broken_isBroken _ _
    | cons c rest =>
      by_cases same : c = letter
      · apply (inductionHypothesis others rest).of_later (List.suffix_cons c rest)
        intro tail _
        rw [List.cons_append, readWord, if_pos same]
      · refine .of_broken fun tail _ => ?_
        rw [List.cons_append, readWord, if_neg same]
        exact broken_isBroken _ _

/-- At the end of a number nothing more is read, so that what follows is left as it is. -/
theorem finishNumber_settled {Tail : List Char → Prop} (value : Document) (digits : List Char)
    (exponent : Int) (run : List Char) :
    Settled Tail (finishNumber value digits exponent) run := by
  unfold finishNumber
  split
  · exact ⟨.unusable .blurred none, some run, by simp, fun _ _ => ⟨rfl, rfl⟩⟩
  · exact ⟨value.blurred, some run, by simp, fun _ _ => ⟨rfl, rfl⟩⟩

/-- Read the digits of an exponent, behind its sign. -/
def readPower (negative : Prop) [Decidable negative] (digits : List Char) (scale : Nat)
    (body : List Char) : Reading :=
  match body with
  | [] => brokenNumber
  | d :: tail =>
    if isDigit d then
      let power : Int := decimal (body.takeWhile isDigit)
      finishNumber .fraction digits ((if negative then -power else power) - scale)
        (body.dropWhile isDigit)
    else broken .malformed tail

/-- A letter `e` begins an exponent, with a sign or without one. Any other character ends the
number. -/
theorem readExponent_cons (value : Document) (digits : List Char) (scale : Nat) (c : Char)
    (rest : List Char) :
    readExponent value digits scale (c :: rest) =
      if c = 'e' || c = 'E' then
        readPower (rest.head? = some '-') digits scale
          (if rest.head? = some '-' || rest.head? = some '+' then rest.tail else rest)
      else finishNumber value digits (-scale) (c :: rest) := rfl

/-- The digits of an exponent end where the run ends, at the latest. Without a digit the number is
broken. -/
theorem readPower_settled (negative : Prop) [Decidable negative] (digits : List Char) (scale : Nat)
    (run : List Char) : Settled EndsScalar (readPower negative digits scale) run := by
  cases run with
  | nil =>
    apply settled_of_end brokenNumber_isBroken
    intro c rest other
    rw [readPower, if_neg (by simp [isDigit_eq_false other])]
    exact broken_isBroken _ _
  | cons d rest =>
    by_cases digit : isDigit d
    · apply (finishNumber_settled _ _ _ _).of_later (List.dropWhile_suffix isDigit)
      intro tail ends
      rw [List.cons_append, readPower, if_pos digit, ← List.cons_append,
        takeWhile_isDigit_append ends, dropWhile_isDigit_append ends]
    · refine .of_broken fun tail _ => ?_
      rw [List.cons_append, readPower, if_neg digit]
      exact broken_isBroken _ _

/-- What does not continue a scalar begins with no character of scalars. -/
theorem EndsScalar.head_ne {tail : List Char} (ends : EndsScalar tail) (letter : Char)
    (scalar : isScalarChar letter) : tail.head? ≠ some letter := by
  intro first
  have other := ends letter first
  rw [scalar] at other
  cases other

/-- The exponent of a number, if there is one, is read from its run only. A tail that ends the
scalar begins with no sign, no digit and no `e`, so it is not taken for a part of the number. -/
theorem readExponent_settled (value : Document) (digits : List Char) (scale : Nat)
    (run : List Char) : Settled EndsScalar (readExponent value digits scale) run := by
  cases run with
  | nil =>
    apply (finishNumber_settled value digits (-scale) []).of_later List.suffix_rfl
    intro tail ends
    cases tail with
    | nil => rfl
    | cons c rest =>
      have small : c ≠ 'e' := by simpa using ends.head_ne 'e' (by decide)
      have great : c ≠ 'E' := by simpa using ends.head_ne 'E' (by decide)
      rw [List.nil_append, readExponent_cons, if_neg (by simp [small, great])]
  | cons c rest =>
    by_cases raised : c = 'e' || c = 'E'
    · cases rest with
      | nil =>
        -- The number breaks off behind its `e`: no tail begins with a sign or a digit.
        apply (readPower_settled False digits scale []).of_later List.nil_suffix
        intro tail ends
        have minus : tail.head? ≠ some '-' := ends.head_ne '-' (by decide)
        have plus : tail.head? ≠ some '+' := ends.head_ne '+' (by decide)
        rw [List.cons_append, readExponent_cons, if_pos raised]
        simp only [List.nil_append, minus, plus]
        rfl
      | cons d more =>
        by_cases signed : d = '-' || d = '+'
        · apply (readPower_settled (d = '-') digits scale more).of_later
            ((List.suffix_cons d more).trans (List.suffix_cons c _))
          intro tail _
          rw [List.cons_append, readExponent_cons, if_pos raised]
          simp [signed]
        · apply (readPower_settled (d = '-') digits scale (d :: more)).of_later
            (List.suffix_cons c _)
          intro tail _
          rw [List.cons_append, readExponent_cons, if_pos raised]
          simp [signed]
    · apply (finishNumber_settled value digits (-scale) (c :: rest)).of_later List.suffix_rfl
      intro tail _
      rw [List.cons_append, readExponent_cons, if_neg raised]

/-- Read the fraction and the exponent of a number whose integer is `value`, written `whole`. -/
def readFraction (value : Document) (whole : List Char) (text : List Char) : Reading :=
  match text with
  | '.' :: behind =>
    let places := behind.takeWhile isDigit
    match places, behind with
    | [], [] => brokenNumber
    | [], _ :: tail => broken .malformed tail
    | _ :: _, _ => readExponent .fraction (whole ++ places) places.length
        (behind.dropWhile isDigit)
  | behind => readExponent value whole 0 behind

/-- The integer of a number, written `whole`. -/
def integerPart (negative : Bool) (whole : List Char) : Document :=
  if negative && (decimal whole : Int) = 0 then .fraction
  else .integer (if negative then -decimal whole else decimal whole)

/-- A number begins with a digit, and with no other digit behind a zero. Its integer is the digits
up to the first other character, behind which a fraction and an exponent may follow. -/
theorem readNumber_cons (negative : Bool) (c : Char) (rest : List Char) :
    readNumber negative (c :: rest) =
      if !isDigit c then broken .malformed rest
      else if c = '0' && (rest.head?.map isDigit).getD false then broken .malformed rest.tail
      else
        let whole := (c :: rest).takeWhile isDigit
        readFraction (integerPart negative whole) whole ((c :: rest).dropWhile isDigit) := rfl

/-- A point promises digits. Without any the number is broken, at the end of the text in another way
than in front of a character. -/
theorem readFraction_point (value : Document) (whole behind : List Char) :
    readFraction value whole ('.' :: behind) =
      if behind.takeWhile isDigit = [] then
        match behind with
        | [] => brokenNumber
        | _ :: tail => broken .malformed tail
      else readExponent .fraction (whole ++ behind.takeWhile isDigit)
        (behind.takeWhile isDigit).length (behind.dropWhile isDigit) := by
  cases places : behind.takeWhile isDigit <;> cases behind <;> simp_all [readFraction]

/-- Without a point there is no fraction, and an exponent may follow at once. -/
theorem readFraction_of_head_ne {text : List Char} (whole : text.head? ≠ some '.')
    (value : Document) (digits : List Char) :
    readFraction value digits text = readExponent value digits 0 text := by
  unfold readFraction
  split
  · exact absurd rfl whole
  · rfl

/-- The fraction and the exponent of a number are read from its run only. A point with no digits
behind it is at fault whatever follows; with digits, the tail does not add to them. -/
theorem readFraction_settled (value : Document) (whole run : List Char) :
    Settled EndsScalar (readFraction value whole) run := by
  by_cases pointed : run.head? = some '.'
  · obtain ⟨behind, rfl⟩ := List.head?_eq_some_iff.mp pointed
    by_cases places : behind.takeWhile isDigit = []
    · refine .of_broken fun tail ends => ?_
      rw [List.cons_append, readFraction_point, takeWhile_isDigit_append ends, if_pos places]
      cases behind ++ tail with
      | nil => exact brokenNumber_isBroken
      | cons _ rest => exact broken_isBroken _ _
    · apply (readExponent_settled .fraction _ _ _).of_later
        ((List.dropWhile_suffix isDigit).trans (List.suffix_cons '.' behind))
      intro tail ends
      rw [List.cons_append, readFraction_point, takeWhile_isDigit_append ends, if_neg places,
        dropWhile_isDigit_append ends]
  · apply (readExponent_settled value whole 0 run).of_later List.suffix_rfl
    intro tail ends
    refine readFraction_of_head_ne ?_ value whole
    cases run with
    | nil => exact ends.head_ne '.' (by decide)
    | cons c rest => exact pointed

/-- Whether a run begins with a digit does not depend on what follows it, as long as that does not
continue a scalar. -/
theorem headDigit_append {tail : List Char} (ends : EndsScalar tail) (run : List Char) :
    ((run ++ tail).head?.map isDigit).getD false = (run.head?.map isDigit).getD false := by
  cases run with
  | cons c rest => rfl
  | nil =>
    cases tail with
    | nil => rfl
    | cons c rest => exact isDigit_eq_false (ends c rfl)

/-- A number takes its first character, and how it goes on does not depend on what stands behind
its last. -/
theorem readNumber_settled (negative : Bool) (c : Char) (run : List Char) :
    Settled EndsScalar (fun text => readNumber negative (c :: text)) run := by
  by_cases digit : isDigit c
  · by_cases padded : c = '0' && (run.head?.map isDigit).getD false
    · refine .of_broken fun tail ends => ?_
      rw [readNumber_cons, if_neg (by simp [digit]), headDigit_append ends, if_pos padded]
      exact broken_isBroken _ _
    · let whole := c :: run.takeWhile isDigit
      apply (readFraction_settled (integerPart negative whole) whole _).of_later
        (List.dropWhile_suffix isDigit)
      intro tail ends
      rw [readNumber_cons, if_neg (by simp [digit]), headDigit_append ends, if_neg padded,
        List.takeWhile_cons_of_pos digit, List.dropWhile_cons_of_pos digit,
        takeWhile_isDigit_append ends, dropWhile_isDigit_append ends]
  · refine .of_broken fun tail _ => ?_
    rw [readNumber_cons, if_pos (by simp [digit])]
    exact broken_isBroken _ _

/-- There are no leading blanks in front of a visible character. -/
theorem skipSpace_cons_of_visible {c : Char} (visible : isSpace c = false) (rest : List Char) :
    skipSpace (c :: rest) = c :: rest := by
  rw [skipSpace, List.dropWhile_cons_of_neg (by simp [visible])]

/-- The characters of scalars are visible. -/
theorem isSpace_of_isScalarChar {c : Char} (scalar : isScalarChar c) : isSpace c = false := by
  have run := isRunChar_of_isScalarChar scalar
  simp only [isRunChar, Bool.and_eq_true, Bool.not_eq_true'] at run
  exact run.1.1

/-- A scalar is read without going any deeper. -/
theorem readValue_scalar {c : Char} (scalar : isScalarChar c) (fuel : Nat) (rest : List Char) :
    readValue (fuel + 1) (c :: rest) = readValue 1 (c :: rest) := by
  have array : c ≠ '[' := ne_of_class scalar '[' (by decide)
  have object : c ≠ '\x7b' := ne_of_class scalar '\x7b' (by decide)
  rw [readValue, readValue, skipSpace_cons_of_visible (isSpace_of_isScalarChar scalar)]
  split <;> simp_all

/-- The value that begins with a character of scalars is read from the run of such characters, to
the same value up to faults, whatever ends the run. -/
theorem readValue_scalar_settled {c : Char} (scalar : isScalarChar c) (run : List Char) :
    Settled EndsScalar (fun text => readValue 1 (c :: text)) run := by
  by_cases null : c = 'n'
  · subst null
    exact readWord_settled .null (by decide) run
  by_cases yes : c = 't'
  · subst yes
    exact readWord_settled (.boolean true) (by decide) run
  by_cases no : c = 'f'
  · subst no
    exact readWord_settled (.boolean false) (by decide) run
  by_cases minus : c = '-'
  · subst minus
    cases run with
    | nil =>
      apply settled_of_end brokenNumber_isBroken
      intro d rest other
      change (readNumber true (d :: rest)).IsBroken
      rw [readNumber_cons, if_pos (by simp [isDigit_eq_false other])]
      exact broken_isBroken _ _
    | cons d rest =>
      exact (readNumber_settled true d rest).of_later (List.suffix_cons d rest) fun _ _ => rfl
  have reads (text : List Char) : readValue 1 (c :: text) =
      if isDigit c then readNumber false (c :: text) else broken .malformed text := by
    have array : c ≠ '[' := ne_of_class scalar '[' (by decide)
    have object : c ≠ '\x7b' := ne_of_class scalar '\x7b' (by decide)
    have literal : c ≠ '"' := ne_of_class scalar '"' (by decide)
    rw [readValue, skipSpace_cons_of_visible (isSpace_of_isScalarChar scalar)]
    split <;> simp_all
  by_cases digit : isDigit c
  · apply (readNumber_settled false c run).of_later List.suffix_rfl
    intro tail _
    rw [reads, if_pos digit]
  · refine .of_broken fun tail _ => ?_
    rw [reads, if_neg digit]
    exact broken_isBroken _ _

end Parlance.Json
