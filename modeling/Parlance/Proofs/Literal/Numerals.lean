import Mathlib.Data.List.Induction
import Parlance.Literal.Integer
import Parlance.Proofs.Escape.Sequences

/-!
# Numbers in a base

A number in some base is a digit, or a number with one more digit behind it. This is stated by
itself and compared with the way in which digits are looked up and taken together: the digits of
the bases in use are those that are looked up, and taking one after the other gives the number.

The accumulator of 128 bits overflows exactly when the whole number needs more bits, as a number is
never less than what its first digits write.
-/

namespace Parlance.Literal

/-- Whether `c` writes the digit `value` of the base. The digits from ten on are letters of either
case. -/
def WritesDigit (base : Nat) (c : Char) (value : Nat) : Prop :=
  value < base ∧ (c = value.digitChar ∨ c = value.digitChar.toUpper)

/-- A nonempty run of digits and the number it writes. -/
inductive Numeral (base : Nat) : List Char → Nat → Prop where
  | digit {c : Char} {value : Nat} (writes : WritesDigit base c value) : Numeral base [c] value
  | append {front : List Char} {number : Nat} {c : Char} {value : Nat}
      (before : Numeral base front number) (writes : WritesDigit base c value) :
      Numeral base (front ++ [c]) (number * base + value)

/-- A digit of a base is a digit of every larger base, with the same value. -/
theorem WritesDigit.mono {small large : Nat} (le : small ≤ large) {c : Char} {value : Nat}
    (writes : WritesDigit small c value) : WritesDigit large c value :=
  ⟨Nat.lt_of_lt_of_le writes.1 le, writes.2⟩

/-- The digits of the bases in use are those that are looked up. For base sixteen this is checked
for every character below 128. The smaller bases have the digits of sixteen with a value below the
base. -/
theorem digitValue_eq_some_iff {base : Nat} (small : base ≤ 16) {c : Char} {value : Nat} :
    Escape.digitValue base c = some value ↔ WritesDigit base c value := by
  have sixteen : Escape.digitValue 16 c = some value ↔ WritesDigit 16 c value := by
    rcases Nat.lt_or_ge c.toNat 128 with ascii | large
    · have all : ∀ code < 128, ∀ value < 16,
          Escape.digitValue 16 (Char.ofNat code) = some value ↔
            (Char.ofNat code = value.digitChar ∨ Char.ofNat code = value.digitChar.toUpper) := by
        decide +kernel
      constructor
      · intro known
        have below := Escape.lt_of_digitValue known
        refine ⟨below, ?_⟩
        rw [← Char.ofNat_toNat c] at known ⊢
        exact (all c.toNat ascii value below).mp known
      · rintro ⟨below, written⟩
        rw [← Char.ofNat_toNat c] at written ⊢
        exact (all c.toNat ascii value below).mpr written
    · constructor
      · intro known
        exact absurd (Escape.toNat_lt_of_digitValue known) (by omega)
      · rintro ⟨below, written⟩
        have all : ∀ value < 16,
            value.digitChar.toNat < 128 ∧ value.digitChar.toUpper.toNat < 128 := by decide
        rcases written with rfl | rfl
        · exact absurd (all value below).1 (by omega)
        · exact absurd (all value below).2 (by omega)
  have based : Escape.digitValue base c = some value ↔
      Escape.digitValue 16 c = some value ∧ value < base := by
    simp only [Escape.digitValue, Option.filter_eq_some_iff, decide_eq_true_eq]
    constructor
    · rintro ⟨known, below⟩
      exact ⟨⟨known, by omega⟩, below⟩
    · rintro ⟨⟨known, -⟩, below⟩
      exact ⟨known, below⟩
  rw [based, sixteen]
  constructor
  · rintro ⟨writes, below⟩
    exact ⟨below, writes.2⟩
  · intro writes
    exact ⟨writes.mono small, writes.1⟩

namespace Numeral

variable {base number : Nat} {digits : List Char}

/-- A number is written with one digit or more. -/
theorem ne_nil (numeral : Numeral base digits number) : digits ≠ [] := by
  cases numeral <;> simp

/-- Every character of a numeral writes a digit of its base. By induction over the numeral, which
grows by a digit at the end. -/
theorem writesDigit_of_mem (numeral : Numeral base digits number) {c : Char} (member : c ∈ digits) :
    ∃ value, WritesDigit base c value := by
  induction numeral with
  | digit writes =>
    obtain rfl := List.mem_singleton.mp member
    exact ⟨_, writes⟩
  | append before writes inductionHypothesis =>
    rcases List.mem_append.mp member with earlier | last
    · exact inductionHypothesis earlier
    · obtain rfl := List.mem_singleton.mp last
      exact ⟨_, writes⟩

/-- What is no hexadecimal digit is in no numeral of a base up to sixteen. -/
theorem notMem (small : base ≤ 16) (numeral : Numeral base digits number) {c : Char}
    (other : Escape.digitValue 16 c = none) : c ∉ digits := by
  intro member
  obtain ⟨value, writes⟩ := numeral.writesDigit_of_mem member
  have known := (digitValue_eq_some_iff (Nat.le_refl 16)).mpr (writes.mono small)
  rw [other] at known
  nomatch known

/-- Every nonempty run of digits writes a number. By induction over the digits from the end, as
numerals grow there. -/
theorem exists_of_forall (some : digits ≠ [])
    (all : ∀ c ∈ digits, ∃ value, WritesDigit base c value) :
    ∃ number, Numeral base digits number := by
  induction digits using List.reverseRecOn with
  | nil => exact absurd rfl some
  | append_singleton front c inductionHypothesis =>
    obtain ⟨value, writes⟩ := all c (by simp)
    by_cases first : front = []
    · subst first
      exact ⟨value, .digit writes⟩
    · obtain ⟨number, before⟩ := inductionHypothesis first fun d member => all d (by simp [member])
      exact ⟨_, before.append writes⟩

/-- Zeros in front change nothing. -/
theorem zero_cons (positive : 0 < base) (numeral : Numeral base digits number) :
    Numeral base ('0' :: digits) number := by
  have zero : Numeral base ['0'] 0 := .digit ⟨positive, .inl rfl⟩
  induction numeral with
  | digit writes => simpa using zero.append writes
  | append before writes inductionHypothesis => exact inductionHypothesis.append writes

/-- The number written by digits is found from the left to the right. -/
theorem foldl_eq (small : base ≤ 16) (numeral : Numeral base digits number) :
    digits.foldl (fun before c => before * base + (Escape.digitValue base c).getD 0) 0 =
      number := by
  induction numeral with
  | digit writes => simp [(digitValue_eq_some_iff small).mpr writes]
  | append before writes inductionHypothesis =>
    rw [List.foldl_append, inductionHypothesis]
    simp [(digitValue_eq_some_iff small).mpr writes]

/-- A run of digits writes one number only. -/
theorem unique (small : base ≤ 16) {other : Nat} (numeral : Numeral base digits number)
    (alike : Numeral base digits other) : number = other :=
  (numeral.foldl_eq small).symm.trans (alike.foldl_eq small)

/-- A zero in front can be left out, unless it is the only digit. -/
theorem of_zero_cons (small : base ≤ 16) (several : digits ≠ [])
    (numeral : Numeral base ('0' :: digits) number) : Numeral base digits number := by
  obtain ⟨other, alike⟩ := exists_of_forall several fun c member =>
    numeral.writesDigit_of_mem (List.mem_cons_of_mem _ member)
  obtain ⟨value, zero⟩ := numeral.writesDigit_of_mem List.mem_cons_self
  obtain rfl := numeral.unique small (alike.zero_cons (Nat.zero_lt_of_lt zero.1))
  exact alike

/-- Taking one digit after the other overflows exactly when the number does.

Proof: induction along the number. Once the first digits write too much, so do all of them. -/
theorem foldlM_withDigit? (small : base ≤ 16) (numeral : Numeral base digits number) :
    digits.foldlM (withDigit? base) 0 = if number ≤ greatestWide then some number else none := by
  induction numeral with
  | @digit c value writes =>
    have known := (digitValue_eq_some_iff small).mpr writes
    simp [withDigit?, known]
  | @append front number c value before writes inductionHypothesis =>
    have known := (digitValue_eq_some_iff small).mpr writes
    have positive : 0 < base := Nat.zero_lt_of_lt writes.1
    rw [List.foldlM_append, inductionHypothesis]
    by_cases fits : number ≤ greatestWide
    · rw [if_pos fits]
      simp [withDigit?, known]
    · have grows : number ≤ number * base := Nat.le_mul_of_pos_right number positive
      rw [if_neg fits, if_neg (by omega)]
      rfl

/-- Reading a numeral into a bounded number gives its number, or none when this is above the
greatest one. No front of its digits writes a larger number, so that none comes of this only. -/
theorem wide?_eq (small : base ≤ 16) (numeral : Numeral base digits number) :
    wide? base digits = if number ≤ greatestWide then some number else none := by
  rw [wide?, if_neg (by simpa using numeral.ne_nil), numeral.foldlM_withDigit? small]

end Numeral

/-- The test for digits accepts the texts that write a number of the base. Both ask for one digit at
least and for nothing but digits. -/
theorem areDigits_iff {base : Nat} (small : base ≤ 16) {text : List Char} :
    areDigits base text = true ↔ ∃ number, Numeral base text number := by
  have digit (c : Char) :
      (Escape.digitValue base c).isSome = true ↔ ∃ value, WritesDigit base c value := by
    simp only [Option.isSome_iff_exists, digitValue_eq_some_iff small]
  simp only [areDigits, Bool.and_eq_true, Bool.not_eq_true', List.isEmpty_eq_false_iff,
    List.all_eq_true, digit]
  constructor
  · rintro ⟨some, all⟩
    exact Numeral.exists_of_forall some all
  · rintro ⟨number, numeral⟩
    exact ⟨numeral.ne_nil, fun c member => numeral.writesDigit_of_mem member⟩

end Parlance.Literal
