import Parlance.Proofs.Escape.InPlace

/-!
# Evaluation and validation agree

Both passes read a text in the same steps up to the first faulty sequence. There the evaluation
stops with the fault, and the validation goes on, always to the right: each fault it reports is
that of the sequence behind a backslash of the text, at the place of the backslash, and the places
increase.
-/

namespace Parlance.Escape

/-- The fault of an evaluation, if it has one. -/
def fault? (outcome : Except Error (List Char)) : Option Error :=
  match outcome with
  | .error error => some error
  | .ok _ => none

/-- A change of values changes no faults. -/
@[simp] theorem fault?_map (f : List Char → List Char) (outcome : Except Error (List Char)) :
    fault? (outcome.map f) = fault? outcome := by
  cases outcome <;> rfl

/-- What stops the evaluation is what the validation reports first. By induction over the sequences
of the text: both go on behind a good sequence, and both meet the same bad one. -/
theorem fault?_evaluateFrom (offset : Nat) (text : List Char) :
    fault? (evaluateFrom offset text) = (validateFrom offset text).head? := by
  induction text using readInduction generalizing offset with
  | nil => rw [evaluateFrom_nil, validateFrom_nil, fault?, List.head?_nil]
  | plain c rest plain inductionHypothesis =>
    rw [evaluateFrom_plain _ plain, validateFrom_plain _ plain, fault?_map, inductionHypothesis]
  | sequence sequence c rest denoted inductionHypothesis =>
    rw [denoted.evaluateFrom_eq, denoted.validateFrom_eq, fault?_map, inductionHypothesis]
  | fault rest problem faulty =>
    rw [evaluateFrom_fault _ faulty, validateFrom_fault _ faulty, fault?, List.head?_cons]

/-- The fault `error` is that of a sequence of the text, whose first character has the byte offset
`offset`. -/
def FaultyAt (offset : Nat) (text : List Char) (error : Error) : Prop :=
  ∃ before after, text = before ++ '\\' :: after ∧
    error.offset = offset + Text.byteLength before ∧ decode after = .error error.problem

/-- A fault behind some characters of a text is a fault of the text. -/
theorem FaultyAt.append {offset : Nat} {text : List Char} {error : Error} (front : List Char)
    (faulty : FaultyAt (offset + Text.byteLength front) text error) :
    FaultyAt offset (front ++ text) error := by
  obtain ⟨before, after, rfl, place, decoded⟩ := faulty
  refine ⟨front ++ before, after, by rw [List.append_assoc], ?_, decoded⟩
  rw [place, Text.byteLength_append, Nat.add_assoc]

/-- No fault of a text has a smaller offset than the beginning of the text. -/
theorem FaultyAt.le {offset : Nat} {text : List Char} {error : Error}
    (faulty : FaultyAt offset text error) : offset ≤ error.offset := by
  obtain ⟨_, _, _, place, _⟩ := faulty
  omega

/-- Every reported fault is that of a sequence of the text, at the offset of its backslash. By
induction over the sequences of the text. What is found in the rest of it is moved behind the
characters before. -/
theorem faultyAt_of_mem_validateFrom {offset : Nat} {text : List Char} {error : Error}
    (reported : error ∈ validateFrom offset text) : FaultyAt offset text error := by
  induction text using readInduction generalizing offset with
  | nil => simp at reported
  | plain c rest plain inductionHypothesis =>
    rw [validateFrom_plain _ plain] at reported
    exact (inductionHypothesis reported).append [c]
  | sequence sequence c rest denoted inductionHypothesis =>
    rw [denoted.validateFrom_eq, ← denoted.bytes, Nat.add_assoc] at reported
    exact (inductionHypothesis reported).append ('\\' :: sequence)
  | fault rest problem faulty inductionHypothesis =>
    rw [validateFrom_fault _ faulty, Nat.add_assoc] at reported
    rcases List.mem_cons.mp reported with rfl | later
    · exact ⟨[], rest, rfl, rfl, faulty⟩
    · have behind := (inductionHypothesis later).append ('\\' :: rest.take 1)
      rwa [List.cons_append, List.take_append_drop] at behind

/-- Validation reports each place once, from the left to the right. By induction over the sequences
of the text: everything reported about the rest is behind the fault at hand. -/
theorem pairwise_validateFrom (offset : Nat) (text : List Char) :
    (validateFrom offset text).Pairwise fun first second => first.offset < second.offset := by
  induction text using readInduction generalizing offset with
  | nil => simp
  | plain c rest plain inductionHypothesis =>
    rw [validateFrom_plain _ plain]
    exact inductionHypothesis _
  | sequence sequence c rest denoted inductionHypothesis =>
    rw [denoted.validateFrom_eq]
    exact inductionHypothesis _
  | fault rest problem faulty inductionHypothesis =>
    rw [validateFrom_fault _ faulty]
    refine List.pairwise_cons.mpr ⟨fun later reported => ?_, inductionHypothesis _⟩
    have behind := (faultyAt_of_mem_validateFrom reported).le
    simp only
    omega

/-- The evaluation succeeds exactly where the validation reports nothing, and otherwise fails with
the first report. The reports stand at backslashes, in increasing order, and none is about a number
that is the code of no character. Both passes come to these outcomes on the bytes of the text, in
any number of rounds above that of its backslashes, without cutting it inside a character. -/
theorem evaluate_agrees_validate (text : List Char) :
    ((∃ value, evaluate text = .ok value) ↔ validate text = []) ∧
    (∀ error, evaluate text = .error error ↔ (validate text).head? = some error) ∧
    (validate text).Pairwise (fun first second => first.offset < second.offset) ∧
    (∀ error ∈ validate text, ∃ before after, text = before ++ '\\' :: after ∧
      error.offset = Text.byteLength before) ∧
    (∀ error, evaluate text = .error error ∨ error ∈ validate text →
      ∀ value, error.problem ≠ .notCharacter value) ∧
    ∀ spare, InPlace.evaluate (text.count '\\' + 1 + spare) text = .ok (evaluate text) ∧
      InPlace.validate (text.count '\\' + 1 + spare) text = .ok (validate text) := by
  have first : fault? (evaluate text) = (validate text).head? := fault?_evaluateFrom 0 text
  have reported {error : Error} (member : error ∈ validate text) :
      FaultyAt 0 text error := faultyAt_of_mem_validateFrom member
  have stopped (error : Error) :
      evaluate text = .error error ↔ (validate text).head? = some error := by
    rw [← first]
    cases evaluate text <;> simp [fault?]
  refine ⟨?_, stopped, pairwise_validateFrom 0 text, ?_, ?_, ?_⟩
  · rw [← List.head?_eq_none_iff, ← first]
    cases evaluate text <;> simp [fault?]
  · intro error member
    obtain ⟨before, after, split, place, -⟩ := reported member
    exact ⟨before, after, split, by rw [place, Nat.zero_add]⟩
  · intro error met
    have member : error ∈ validate text := by
      rcases met with failed | member
      · exact List.mem_of_head? ((stopped error).mp failed)
      · exact member
    obtain ⟨_, _, _, _, decoded⟩ := reported member
    exact decode_ne_notCharacter decoded
  · intro spare
    exact ⟨InPlace.evaluate_eq_ok (by omega), InPlace.validate_eq_ok (by omega)⟩

/-- A character of two bytes among the octal digits is shown by its first byte, and does not hide
the faults behind it: an unknown letter and a backslash at the end. -/
theorem brokenOctal_agrees :
    validate ['\\', '1', 'é', '\\', 'q', '\\'] =
      [⟨0, .invalidDigit 8 'Ã'⟩, ⟨4, .unknown 'q'⟩, ⟨6, .premature⟩] ∧
    evaluate ['\\', '1', 'é', '\\', 'q', '\\'] = .error ⟨0, .invalidDigit 8 'Ã'⟩ ∧
    (∃ before after, ['\\', '1', 'é', '\\', 'q', '\\'] = before ++ '\\' :: after ∧
      6 = Text.byteLength before) ∧
    InPlace.validate 4 ['\\', '1', 'é', '\\', 'q', '\\'] =
      .ok [⟨0, .invalidDigit 8 'Ã'⟩, ⟨4, .unknown 'q'⟩, ⟨6, .premature⟩] := by
  have reports : validate ['\\', '1', 'é', '\\', 'q', '\\'] =
      [⟨0, .invalidDigit 8 'Ã'⟩, ⟨4, .unknown 'q'⟩, ⟨6, .premature⟩] := by decide +kernel
  obtain ⟨-, stopped, -, places, -, inPlace⟩ :=
    evaluate_agrees_validate ['\\', '1', 'é', '\\', 'q', '\\']
  refine ⟨reports, (stopped _).mpr (by rw [reports]; rfl), ?_, ?_⟩
  · exact places ⟨6, .premature⟩ (by rw [reports]; simp)
  · exact (inPlace 0).2.trans (congrArg Except.ok reports)

end Parlance.Escape
