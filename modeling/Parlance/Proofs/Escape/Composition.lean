import Parlance.Proofs.Escape.Sequences

/-!
# Evaluation of joined texts

Evaluation is a homomorphism: where the first of two texts can be evaluated, the two joined give
the two values joined, and a fault of the second is found where it stands in the whole. Two things
make it so. A sequence is not continued by what follows it, so the seam falls into no sequence; and
offsets only count what stands before, so that they move with the text.

Every text is a value: writing each backslash twice, and all else once, is undone by evaluation.
-/

namespace Parlance.Escape

/-- The same fault behind some more bytes. -/
def Error.behind (bytes : Nat) (error : Error) : Error :=
  { error with offset := error.offset + bytes }

/-- The bytes before a text move its fault and leave its value. By induction over the sequences of
the text, as only the offsets of faults are counted on. -/
theorem evaluateFrom_add (bytes offset : Nat) (text : List Char) :
    evaluateFrom (offset + bytes) text =
      (evaluateFrom offset text).mapError (Error.behind bytes) := by
  have commute (outcome : Except Error (List Char)) (c : Char) :
      (outcome.mapError (Error.behind bytes)).map (c :: ·) =
        (outcome.map (c :: ·)).mapError (Error.behind bytes) := by
    cases outcome <;> rfl
  induction text using readInduction generalizing offset with
  | nil => rw [evaluateFrom_nil, evaluateFrom_nil, Except.mapError]
  | plain c rest plain inductionHypothesis =>
    rw [evaluateFrom_plain _ plain, evaluateFrom_plain _ plain, Nat.add_right_comm,
      inductionHypothesis, commute]
  | sequence sequence c rest denoted inductionHypothesis =>
    have moved : offset + bytes + 1 + sequence.length = offset + 1 + sequence.length + bytes := by
      omega
    rw [denoted.evaluateFrom_eq, denoted.evaluateFrom_eq, moved, inductionHypothesis, commute]
  | fault rest problem faulty =>
    rw [evaluateFrom_fault _ faulty, evaluateFrom_fault _ faulty]
    rfl

/-- Behind a text that can be evaluated, evaluation goes on as if at a beginning.

Proof: induction along the first text. A sequence in it is the same sequence in the whole. -/
theorem evaluateFrom_append {offset : Nat} {first value : List Char}
    (evaluated : evaluateFrom offset first = .ok value) (second : List Char) :
    evaluateFrom offset (first ++ second) =
      (evaluateFrom (offset + Text.byteLength first) second).map (value ++ ·) := by
  have joined (outcome : Except Error (List Char)) (c : Char) (more : List Char) :
      (outcome.map (more ++ ·)).map (c :: ·) = outcome.map (c :: more ++ ·) := by
    cases outcome <;> rfl
  induction first using readInduction generalizing offset value with
  | nil =>
    obtain rfl : [] = value := Except.ok.inj (evaluateFrom_nil offset ▸ evaluated)
    exact (congrFun Except.map_id (evaluateFrom offset second)).symm
  | plain c rest plain inductionHypothesis =>
    rw [evaluateFrom_plain _ plain] at evaluated
    obtain ⟨more, read, rfl⟩ := map_eq_ok evaluated
    rw [List.cons_append, evaluateFrom_plain _ plain, inductionHypothesis read, joined,
      Text.byteLength, Nat.add_assoc]
  | sequence sequence c rest denoted inductionHypothesis =>
    rw [denoted.evaluateFrom_eq] at evaluated
    obtain ⟨more, read, rfl⟩ := map_eq_ok evaluated
    have bytes : Text.byteLength ('\\' :: (sequence ++ rest)) =
        1 + sequence.length + Text.byteLength rest := by
      rw [Text.byteLength, Text.byteLength_append, denoted.bytes, Nat.add_assoc]
      rfl
    rw [List.cons_append, List.append_assoc, denoted.evaluateFrom_eq,
      inductionHypothesis read, joined, bytes]
    congr 2
    omega
  | fault rest problem faulty =>
    rw [evaluateFrom_fault _ faulty] at evaluated
    cases evaluated

/-- The text with every backslash written twice. -/
def doubled (text : List Char) : List Char :=
  text.flatMap fun c => if c = '\\' then ['\\', '\\'] else [c]

/-- A text with its backslashes doubled evaluates to the text, at every offset. By induction over
the characters: a doubled backslash is a sequence that denotes a backslash, and every other
character stands for itself. -/
theorem evaluateFrom_doubled (offset : Nat) (text : List Char) :
    evaluateFrom offset (doubled text) = .ok text := by
  induction text generalizing offset with
  | nil => exact evaluateFrom_nil offset
  | cons c rest inductionHypothesis =>
    have single (offset : Nat) :
        evaluateFrom offset (if c = '\\' then ['\\', '\\'] else [c]) = .ok [c] := by
      split
      case isTrue backslash =>
        subst backslash
        have denoted : Sequence ['\\'] '\\' := ⟨by simp, by decide, fun more => rfl⟩
        rw [show ['\\', '\\'] = '\\' :: (['\\'] ++ []) from rfl, denoted.evaluateFrom_eq,
          evaluateFrom_nil]
        rfl
      case isFalse plain => simp [evaluateFrom_plain offset plain, Except.map]
    rw [doubled, List.flatMap_cons, evaluateFrom_append (single offset)]
    rw [← doubled, inductionHypothesis]
    rfl

/-- Evaluation goes through a joint behind a text that can be evaluated: values are joined, and a
fault of the second text is that of the whole, further on by the bytes of the first. Writing every
backslash twice is undone, so that each text is the value of one. -/
theorem evaluate_composes :
    (∀ first second value : List Char, evaluate first = .ok value →
      evaluate (first ++ second) = match evaluate second with
        | .ok more => .ok (value ++ more)
        | .error error => .error ⟨error.offset + Text.byteLength first, error.problem⟩) ∧
    ∀ text : List Char, evaluate (doubled text) = .ok text := by
  constructor
  · intro first second value evaluated
    have moved : evaluateFrom (0 + Text.byteLength first) second =
        (evaluate second).mapError (Error.behind (Text.byteLength first)) :=
      evaluateFrom_add _ 0 second
    rw [evaluate, evaluateFrom_append evaluated second, moved]
    cases evaluate second <;> rfl
  · exact evaluateFrom_doubled 0

/-- Right behind a sequence with two digits a third one is plain, and the fault behind it is found
at its place in the whole, where `é` counts as two bytes. -/
theorem hexThenUnknown_composes :
    evaluate ['é', '\\', 'x', '4', '1'] = .ok ['é', 'A'] ∧
      evaluate ['é', '\\', 'x', '4', '1', '1', '\\', 'q'] = .error ⟨7, .unknown 'q'⟩ := by
  have first : evaluate ['é', '\\', 'x', '4', '1'] = .ok ['é', 'A'] := by
    simp [evaluate, evaluateFrom, show decode ['x', '4', '1'] = .ok ('A', 3) from rfl, Except.map]
  have second : evaluate ['1', '\\', 'q'] = .error ⟨1, .unknown 'q'⟩ := by
    simp [evaluate, evaluateFrom, show decode ['q'] = .error (.unknown 'q') from rfl, Except.map,
      show '1'.utf8Size = 1 from rfl]
  refine ⟨first, ?_⟩
  have joined := evaluate_composes.1 _ ['1', '\\', 'q'] _ first
  rw [second] at joined
  exact joined

end Parlance.Escape
