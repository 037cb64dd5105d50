import Mathlib.Tactic.Ring
import Parlance.Escape

/-!
# What an escape sequence takes

A sequence that is decoded is fixed by the characters it takes: three octal digits, `x` with two
hexadecimal digits, or one letter. They are characters of one byte each, and whatever stands
behind them, the same sequence denotes the same character. The numbers that so few digits write
are all codes of characters.

Reading a text therefore goes from one place to a later one in four ways: nothing is left, a plain
character is passed, a sequence is taken, or a faulty sequence is met. `readInduction` is the
induction along these steps. After a faulty sequence it goes on behind the character that follows
the backslash, which is where the validation goes on; the evaluation stops there.
-/

namespace Parlance.Escape

/-! ## Digits -/

/-- The digits of all bases are characters below 128. -/
theorem toNat_lt_of_digitValue {base digit : Nat} {c : Char}
    (known : digitValue base c = some digit) : c.toNat < 128 := by
  simp only [digitValue, Option.filter_eq_some_iff] at known
  obtain ⟨known, -⟩ := known
  split_ifs at known with decimal lower upper
  · exact lt_of_le_of_lt (show c.toNat ≤ 57 from decimal.2) (by decide)
  · exact lt_of_le_of_lt (show c.toNat ≤ 122 from lower.2) (by decide)
  · exact lt_of_le_of_lt (show c.toNat ≤ 90 from upper.2) (by decide)

/-- A digit of a base is smaller than the base. -/
theorem lt_of_digitValue {base digit : Nat} {c : Char} (known : digitValue base c = some digit) :
    digit < base := by
  simp only [digitValue, Option.filter_eq_some_iff] at known
  exact of_decide_eq_true known.2

/-- A character below 128 takes one byte. -/
theorem utf8Size_of_toNat_lt {c : Char} (small : c.toNat < 128) : c.utf8Size = 1 :=
  Char.utf8Size_eq_one_iff.mpr (Nat.le_of_lt_succ small)

/-- The digits that write a number take one byte each. They write it whatever follows them, and
the number has no more digits than they are. -/
theorem digits_eq_ok {base count value result : Nat} {text : List Char}
    (enough : count ≤ Text.byteLength text) (written : digits base count value text = .ok result) :
    ∃ field rest, text = field ++ rest ∧ field.length = count ∧ Text.byteLength field = count ∧
      (∀ more, digits base count value (field ++ more) = .ok result) ∧
      result < (value + 1) * base ^ count := by
  induction count generalizing value text with
  | zero =>
    obtain rfl : value = result := by simpa [digits] using written
    exact ⟨[], text, rfl, rfl, rfl, fun more => rfl, by simp⟩
  | succ count inductionHypothesis =>
    cases text with
    | nil => simp [Text.byteLength] at enough
    | cons c rest =>
      cases known : digitValue base c with
      | none => simp [digits, known] at written
      | some digit =>
        have size : c.utf8Size = 1 := utf8Size_of_toNat_lt (toNat_lt_of_digitValue known)
        have below : digit < base := lt_of_digitValue known
        simp only [digits, known] at written
        have left : count ≤ Text.byteLength rest := by
          simp only [Text.byteLength, size] at enough
          omega
        obtain ⟨field, behind, rfl, length, bytes, writes, bound⟩ :=
          inductionHypothesis left written
        refine ⟨c :: field, behind, rfl, by simp [length], by simp [Text.byteLength, size, bytes,
          Nat.add_comm], ?_, ?_⟩
        · intro more
          simpa only [List.cons_append, digits, known] using writes more
        · calc result < (value * base + digit + 1) * base ^ count := bound
            _ ≤ (value * base + base) * base ^ count := Nat.mul_le_mul_right _ (by omega)
            _ = (value + 1) * base ^ (count + 1) := by ring

/-- A number below the surrogates is the code of a character. -/
theorem coded_of_lt {value : Nat} (small : value < 0xD800) : coded value = .ok (Char.ofNat value) :=
  if_pos (.inl small)

/-- The characters that write a code, when the base and their number are small enough for every
number they can write to be one. -/
theorem numbered_eq_ok {base count : Nat} {c : Char} {text : List Char}
    (small : base ^ count ≤ 0xD800) (written : numbered base count text = .ok c) :
    ∃ field rest, text = field ++ rest ∧ field.length = count ∧ Text.byteLength field = count ∧
      ∀ more, numbered base count (field ++ more) = .ok c := by
  unfold numbered at written
  split_ifs at written with short
  cases read : digits base count 0 text with
  | error shown => simp [read] at written
  | ok value =>
    obtain ⟨field, rest, same, length, bytes, writes, bound⟩ := digits_eq_ok (by omega) read
    have code : value < 0xD800 := by
      rw [Nat.zero_add, Nat.one_mul] at bound
      omega
    refine ⟨field, rest, same, length, bytes, fun more => ?_⟩
    have room : ¬ Text.byteLength (field ++ more) < count := by
      rw [Text.byteLength_append]
      omega
    rw [numbered, if_neg room, writes more]
    simpa only [read] using written

/-- So few digits that they write only numbers below the surrogates never write a number that is no
character. -/
theorem numbered_ne_notCharacter {base count : Nat} {problem : Problem} {text : List Char}
    (small : base ^ count ≤ 0xD800) (faulty : numbered base count text = .error problem)
    (value : Nat) : problem ≠ .notCharacter value := by
  unfold numbered at faulty
  split_ifs at faulty with short
  · obtain rfl := Except.error.inj faulty
    nofun
  · cases read : digits base count 0 text with
    | error shown =>
      rw [read] at faulty
      obtain rfl := Except.error.inj faulty
      nofun
    | ok code =>
      obtain ⟨_, _, _, _, _, _, bound⟩ := digits_eq_ok (by omega) read
      rw [Nat.zero_add, Nat.one_mul] at bound
      rw [read] at faulty
      simp only [coded_of_lt (show code < 0xD800 by omega)] at faulty
      nomatch faulty

/-! ## Sequences -/

section

variable {ε α β : Type} {f : α → β} {outcome : Except ε α}

/-- A changed outcome comes from an outcome. -/
theorem map_eq_ok {value : β} (mapped : outcome.map f = .ok value) :
    ∃ found, outcome = .ok found ∧ f found = value := by
  cases outcome with
  | error problem => nomatch mapped
  | ok found => exact ⟨found, rfl, Except.ok.inj mapped⟩

/-- A change of outcomes leaves faults as they are. -/
theorem map_eq_error {problem : ε} (mapped : outcome.map f = .error problem) :
    outcome = .error problem := by
  cases outcome with
  | error found => exact congrArg Except.error (Except.error.inj mapped)
  | ok found => nomatch mapped

end

/-- The characters `sequence` behind a backslash denote `c`, whatever follows them, and take one
byte each. -/
structure Sequence (sequence : List Char) (c : Char) : Prop where
  nonempty : sequence ≠ []
  bytes : Text.byteLength sequence = sequence.length
  decodes : ∀ more, decode (sequence ++ more) = .ok (c, sequence.length)

/-- The letters behind a backslash are characters below 128. -/
theorem toNat_lt_of_simple {kind c : Char} (known : simple kind = some c) : kind.toNat < 128 := by
  unfold simple at known
  split at known <;> first | decide | nomatch known

/-- What is decoded is a sequence at the start of the text. The three kinds of sequences are looked
at in turn: a single letter, octal digits, and hexadecimal digits behind an `x`. -/
theorem decode_eq_ok {text : List Char} {c : Char} {taken : Nat}
    (decoded : decode text = .ok (c, taken)) :
    ∃ sequence rest, text = sequence ++ rest ∧ sequence.length = taken ∧ Sequence sequence c := by
  cases text with
  | nil => nomatch decoded
  | cons kind body =>
    cases known : simple kind with
    | some denoted =>
      obtain ⟨rfl, rfl⟩ : denoted = c ∧ 1 = taken := by simpa [decode, known] using decoded
      have size : kind.utf8Size = 1 := utf8Size_of_toNat_lt (toNat_lt_of_simple known)
      exact ⟨[kind], body, rfl, rfl, by simp, by simp [Text.byteLength, size],
        fun more => by simp [decode, known]⟩
    | none =>
      simp only [decode, known] at decoded
      split_ifs at decoded with octal hexadecimal
      · obtain ⟨denoted, read, same⟩ := map_eq_ok decoded
        obtain ⟨rfl, rfl⟩ := Prod.mk.inj same
        obtain ⟨field, rest, same, length, bytes, reads⟩ := numbered_eq_ok (by decide) read
        refine ⟨field, rest, same, length, ⟨?_, bytes.trans length.symm, fun more => ?_⟩⟩
        · rintro rfl
          simp at length
        · cases field with
          | nil => simp at length
          | cons first others =>
            obtain rfl : kind = first := (List.cons.inj same).1
            rw [List.cons_append, decode, known]
            simp only [if_pos octal]
            rw [← List.cons_append, reads more, length]
            rfl
      · obtain ⟨denoted, read, same⟩ := map_eq_ok decoded
        obtain ⟨rfl, rfl⟩ := Prod.mk.inj same
        obtain ⟨field, rest, rfl, length, bytes, reads⟩ := numbered_eq_ok (by decide) read
        refine ⟨kind :: field, rest, rfl, by simp [length], ⟨by simp, ?_, fun more => ?_⟩⟩
        · have size : kind.utf8Size = 1 := by rw [hexadecimal]; decide
          rw [Text.byteLength, size, bytes, List.length_cons, length, Nat.add_comm]
        · rw [List.cons_append, decode, known]
          simp only [if_neg octal, if_pos hexadecimal, reads more, List.length_cons, length]
          rfl

/-- No sequence is refused for the number it writes. Three octal or two hexadecimal digits write a
number that is far too small to be refused. -/
theorem decode_ne_notCharacter {text : List Char} {problem : Problem}
    (faulty : decode text = .error problem) (value : Nat) : problem ≠ .notCharacter value := by
  cases text with
  | nil =>
    obtain rfl := Except.error.inj faulty
    intro same
    cases same
  | cons kind body =>
    cases known : simple kind with
    | some denoted => simp [decode, known] at faulty
    | none =>
      simp only [decode, known] at faulty
      split_ifs at faulty with octal hexadecimal
      · exact numbered_ne_notCharacter (by decide) (map_eq_error faulty) value
      · exact numbered_ne_notCharacter (by decide) (map_eq_error faulty) value
      · obtain rfl := Except.error.inj faulty
        intro same
        cases same

/-! ## Steps of a reading -/

/-- Induction along a text as it is read. Behind a faulty sequence it goes on after the character
that follows the backslash. -/
@[elab_as_elim]
theorem readInduction {motive : List Char → Prop} (nil : motive [])
    (plain : ∀ c rest, c ≠ '\\' → motive rest → motive (c :: rest))
    (sequence : ∀ sequence c rest, Sequence sequence c → motive rest →
      motive ('\\' :: (sequence ++ rest)))
    (fault : ∀ rest problem, decode rest = .error problem → motive (rest.drop 1) →
      motive ('\\' :: rest))
    (text : List Char) : motive text := by
  induction length : text.length using Nat.strong_induction_on generalizing text with
  | _ size inductionHypothesis =>
    have shorter (rest : List Char) (less : rest.length < text.length) : motive rest :=
      inductionHypothesis rest.length (length ▸ less) rest rfl
    cases text with
    | nil => exact nil
    | cons c rest =>
      by_cases backslash : c = '\\'
      · subst backslash
        cases decoded : decode rest with
        | error problem =>
          have less : (rest.drop 1).length < ('\\' :: rest).length := by
            rw [List.length_cons, List.length_drop]
            omega
          exact fault rest problem decoded (shorter _ less)
        | ok taken =>
          obtain ⟨characters, behind, rfl, -, denoted⟩ := decode_eq_ok decoded
          have less : behind.length < ('\\' :: (characters ++ behind)).length := by
            rw [List.length_cons, List.length_append]
            omega
          exact sequence characters taken.1 behind denoted (shorter _ less)
      · exact plain c rest backslash (shorter _ (Nat.lt_succ_self _))

variable {sequence : List Char} {c : Char}

/-- The empty text evaluates to itself, at every offset. -/
@[simp] theorem evaluateFrom_nil (offset : Nat) : evaluateFrom offset [] = .ok [] := by
  rw [evaluateFrom]

/-- A plain character evaluates to itself, and the rest of the text is evaluated behind its
bytes. -/
theorem evaluateFrom_plain (offset : Nat) (plain : c ≠ '\\') (rest : List Char) :
    evaluateFrom offset (c :: rest) = (evaluateFrom (offset + c.utf8Size) rest).map (c :: ·) := by
  rw [evaluateFrom, if_neg plain]

/-- A sequence evaluates to the character it denotes, and the rest of the text is evaluated behind
its bytes. -/
theorem Sequence.evaluateFrom_eq (denoted : Sequence sequence c) (offset : Nat)
    (rest : List Char) :
    evaluateFrom offset ('\\' :: (sequence ++ rest)) =
      (evaluateFrom (offset + 1 + sequence.length) rest).map (c :: ·) := by
  rw [evaluateFrom, if_pos rfl, denoted.decodes rest]
  simp only [List.take_left, List.drop_left, denoted.bytes]

/-- The evaluation ends at the first faulty sequence, whose fault has the offset of the
backslash. -/
theorem evaluateFrom_fault (offset : Nat) {rest : List Char} {problem : Problem}
    (faulty : decode rest = .error problem) :
    evaluateFrom offset ('\\' :: rest) = .error ⟨offset, problem⟩ := by
  rw [evaluateFrom, if_pos rfl, faulty]

/-- The empty text has no faults. -/
@[simp] theorem validateFrom_nil (offset : Nat) : validateFrom offset [] = [] := by
  rw [validateFrom]

/-- A plain character is passed by the validation. -/
theorem validateFrom_plain (offset : Nat) (plain : c ≠ '\\') (rest : List Char) :
    validateFrom offset (c :: rest) = validateFrom (offset + c.utf8Size) rest := by
  rw [validateFrom, if_neg plain]

/-- A sequence that denotes a character is passed by the validation. -/
theorem Sequence.validateFrom_eq (denoted : Sequence sequence c) (offset : Nat)
    (rest : List Char) :
    validateFrom offset ('\\' :: (sequence ++ rest)) =
      validateFrom (offset + 1 + sequence.length) rest := by
  rw [validateFrom, if_pos rfl, denoted.decodes rest]
  simp only [List.take_left, List.drop_left, denoted.bytes]

/-- The validation reports a faulty sequence at its backslash and goes on behind the character that
follows it. -/
theorem validateFrom_fault (offset : Nat) {rest : List Char} {problem : Problem}
    (faulty : decode rest = .error problem) :
    validateFrom offset ('\\' :: rest) =
      ⟨offset, problem⟩ ::
        validateFrom (offset + 1 + Text.byteLength (rest.take 1)) (rest.drop 1) := by
  rw [validateFrom, if_pos rfl, faulty]

end Parlance.Escape
