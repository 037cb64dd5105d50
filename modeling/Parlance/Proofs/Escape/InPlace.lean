import Parlance.Proofs.Escape.Composition

/-!
# Escape sequences by byte offsets

The two passes over a text can be run on its bytes in UTF-8, with a byte offset as the only state.
Then a sequence is decoded by looking at bytes, each offset at which the text is cut has to lie
between two characters, and both passes are loops that need a bound on their rounds.

Run like this, no cut falls into a character and no loop goes on for more rounds than one for each
backslash and one for the end, whatever the text is: the outcome is that of `evaluate` and
`validate`. The reason is what a sequence is: the characters it takes have one byte each, so that
behind it another character begins; and the first byte of a longer character is no digit, no letter
and no backslash, so that looking at bytes or at characters comes to the same.
-/

namespace Parlance

/-! ## Bytes of a text -/

namespace Text

/-- The bytes of a text in UTF-8. -/
def bytes (text : List Char) : List UInt8 := text.flatMap String.utf8EncodeChar

/-- The character with the code of a byte. -/
def ofByte (byte : UInt8) : Char := Char.ofNat byte.toNat

/-- What stands before a byte offset and what behind it, if it lies between two characters, at the
start or at the end. -/
def cut? (offset : Nat) : List Char → Option (List Char × List Char)
  | [] => if offset = 0 then some ([], []) else none
  | c :: rest =>
    if offset = 0 then some ([], c :: rest)
    else if c.utf8Size ≤ offset then
      (cut? (offset - c.utf8Size) rest).map fun parts => (c :: parts.1, parts.2)
    else none

/-- The bytes of a text are those of its first character and then those of the rest. -/
theorem bytes_cons (c : Char) (rest : List Char) :
    bytes (c :: rest) = String.utf8EncodeChar c ++ bytes rest := List.flatMap_cons

/-- The bytes of two texts in a row are those of the first and then those of the second. -/
theorem bytes_append (first second : List Char) :
    bytes (first ++ second) = bytes first ++ bytes second := List.flatMap_append

/-- A text has as many bytes as its characters take. -/
@[simp] theorem length_bytes (text : List Char) : (bytes text).length = byteLength text := by
  induction text with
  | nil => rfl
  | cons c rest inductionHypothesis =>
    rw [bytes_cons, List.length_append, String.length_utf8EncodeChar, inductionHypothesis,
      byteLength]

/-- A text is cut where it was joined. By induction over the front part, whose characters use up the
offset byte by byte. -/
theorem cut?_byteLength (before behind : List Char) :
    cut? (byteLength before) (before ++ behind) = some (before, behind) := by
  induction before with
  | nil => cases behind <;> rfl
  | cons c rest inductionHypothesis =>
    have positive : 0 < c.utf8Size := c.utf8Size_pos
    have further : c.utf8Size + byteLength rest - c.utf8Size = byteLength rest := by omega
    rw [List.cons_append, cut?, byteLength, if_neg (by omega), if_pos (by omega), further,
      inductionHypothesis]
    rfl

example : cut? 1 ['é', 'x'] = none := rfl

/-- The first byte of a character below 128 is the character itself. -/
theorem leadByte_of_lt {c : Char} (small : c.toNat < 128) : leadByte c = c.toNat := if_pos small

/-- The codes of characters are below the end of Unicode. -/
theorem toNat_lt (c : Char) : c.toNat < 0x110000 := by
  have valid : c.toNat.isValidChar := c.valid
  rcases valid with low | high <;> omega

/-- The first byte of a character from 128 on is no character below 128 either. -/
theorem le_leadByte {c : Char} (large : 128 ≤ c.toNat) : 128 ≤ leadByte c := by
  unfold leadByte
  split_ifs <;> omega

/-- The first byte of a character is a byte. -/
theorem leadByte_lt (c : Char) : leadByte c < 256 := by
  have bound := toNat_lt c
  unfold leadByte
  split_ifs <;> omega

/-- The bytes of a character begin with its lead byte. The cases are those of the encoding, by the
number of bytes that a character takes. -/
theorem utf8EncodeChar_eq_cons (c : Char) :
    ∃ others, String.utf8EncodeChar c = UInt8.ofNat (leadByte c) :: others := by
  have bound : c.val.toNat < 0x110000 := toNat_lt c
  simp only [String.utf8EncodeChar, leadByte, show c.toNat = c.val.toNat from rfl]
  generalize c.val.toNat = code at bound
  have first {lead shown : Nat} (others : List UInt8) (same : lead = shown) :
      ∃ more, UInt8.ofNat lead :: others = UInt8.ofNat shown :: more := ⟨others, by rw [same]⟩
  by_cases one : code ≤ 127
  · rw [if_pos one, if_pos (show code < 0x80 by omega)]
    exact first _ rfl
  · rw [if_neg one, if_neg (show ¬ code < 0x80 by omega)]
    by_cases two : code ≤ 2047
    · rw [if_pos two, if_pos (show code < 0x800 by omega)]
      exact first _ (by omega)
    · rw [if_neg two, if_neg (show ¬ code < 0x800 by omega)]
      by_cases three : code ≤ 65535
      · rw [if_pos three, if_pos (show code < 0x10000 by omega)]
        exact first _ (by omega)
      · rw [if_neg three, if_neg (show ¬ code < 0x10000 by omega)]
        exact first _ (by omega)

/-- The character that the first byte of a character stands for by itself. -/
def leading (c : Char) : Char := Char.ofNat (leadByte c)

/-- The first byte of a character, read as a character, is the one that it stands for by itself. -/
theorem ofByte_leadByte (c : Char) : ofByte (UInt8.ofNat (leadByte c)) = leading c := by
  rw [ofByte, UInt8.toNat_ofNat_of_lt' (leadByte_lt c), leading]

/-- The first byte of a character below 128 stands for the character. -/
theorem leading_of_lt {c : Char} (small : c.toNat < 128) : leading c = c := by
  rw [leading, leadByte_of_lt small, Char.ofNat_toNat]

/-- The first byte of a character from 128 on stands for no character below 128. -/
theorem le_leading {c : Char} (large : 128 ≤ c.toNat) : 128 ≤ (leading c).toNat := by
  have code : (leadByte c).isValidChar := .inl (lt_trans (leadByte_lt c) (by decide))
  have same : (leading c).toNat = leadByte c := by
    rw [leading, Char.ofNat, dif_pos code]
    rfl
  rw [same]
  exact le_leadByte large

/-- A test that only characters below 128 pass tells a character and its first byte alike. -/
theorem leading_iff (test : Char → Prop) (small : ∀ c, test c → c.toNat < 128) (c : Char) :
    test (leading c) ↔ test c := by
  rcases Nat.lt_or_ge c.toNat 128 with below | large
  · rw [leading_of_lt below]
  · constructor
    · intro passed
      exact absurd (small _ passed) (Nat.not_lt.mpr (le_leading large))
    · intro passed
      exact absurd (small _ passed) (Nat.not_lt.mpr large)

end Text

namespace Escape

namespace InPlace

/-! ## Passes over bytes -/

/-- Why a pass stops without an outcome. -/
inductive Halt where
  /-- The text is cut where no character begins. -/
  | insideCharacter (offset : Nat)
  /-- No round of the loop is left. -/
  | outOfRounds
deriving DecidableEq, Repr

/-- Cut a text at a byte offset. -/
def cut (offset : Nat) (text : List Char) : Except Halt (List Char × List Char) :=
  match Text.cut? offset text with
  | some parts => .ok parts
  | none => .error (.insideCharacter offset)

/-- The number of bytes before the first backslash. -/
def backslash? : List Char → Option Nat
  | [] => none
  | c :: rest => if c = '\\' then some 0 else (backslash? rest).map (c.utf8Size + ·)

/-- The number written by bytes, or the first of them that is no digit of the base. -/
def number (base value : Nat) : List UInt8 → Except Char Nat
  | [] => .ok value
  | byte :: rest =>
    match digitValue base (Text.ofByte byte) with
    | some digit => number base (value * base + digit) rest
    | none => .error (Text.ofByte byte)

/-- The character whose code is written by the `count` bytes from `start` on. -/
def numbered (bytes : List UInt8) (base count start : Nat) : Except Problem Char :=
  if bytes.length < start + count then .error .premature
  else match number base 0 ((bytes.drop start).take count) with
    | .ok value => coded value
    | .error shown => .error (.invalidDigit base shown)

/-- Decode the sequence whose backslash stands at the byte offset `place`: its character and the
offset behind it. -/
def decode (text : List Char) (place : Nat) : Except Halt (Except Problem (Char × Nat)) :=
  let bytes := Text.bytes text
  match bytes[place + 1]? with
  | none => return .error .premature
  | some byte =>
    let kind := Text.ofByte byte
    match simple kind with
    | some c => return .ok (c, place + 2)
    | none =>
      if '0' ≤ kind ∧ kind ≤ '7' then
        return (numbered bytes 8 3 (place + 1)).map (·, place + 1 + 3)
      else if kind = 'x' then
        return (numbered bytes 16 2 (place + 2)).map (·, place + 2 + 2)
      else do
        let (_, behind) ← cut (place + 1) text
        return .error (.unknown (behind.head?.getD kind))

/-- Evaluate the text from the byte offset `position` on, behind what is written so far. -/
def evaluateLoop (text : List Char) :
    Nat → Nat → List Char → Except Halt (Except Error (List Char))
  | 0, _, _ => .error .outOfRounds
  | rounds + 1, position, written => do
    let (_, behind) ← cut position text
    match backslash? behind with
    | none => return .ok (written ++ behind)
    | some distance =>
      let place := position + distance
      let (plain, _) ← cut distance behind
      match ← decode text place with
      | .error problem => return .error ⟨place, problem⟩
      | .ok (c, next) => evaluateLoop text rounds next (written ++ plain ++ [c])

/-- Validate the text from the byte offset `position` on, behind the faults found so far. -/
def validateLoop (text : List Char) : Nat → Nat → List Error → Except Halt (List Error)
  | 0, _, _ => .error .outOfRounds
  | rounds + 1, position, errors => do
    let (_, behind) ← cut position text
    match backslash? behind with
    | none => return errors
    | some distance =>
      let place := position + distance
      let (errors, next) ← match ← decode text place with
        | .ok (_, next) => pure (errors, next)
        | .error problem => do
          let (_, following) ← cut (place + 1) text
          let size := (following.head?.map Char.utf8Size).getD 0
          pure (errors ++ [⟨place, problem⟩], place + 1 + size)
      if Text.byteLength text ≤ next then return errors
      else validateLoop text rounds next errors

/-- Evaluate a text by byte offsets, in so many rounds. -/
def evaluate (rounds : Nat) (text : List Char) : Except Halt (Except Error (List Char)) :=
  evaluateLoop text rounds 0 []

/-- Validate a text by byte offsets, in so many rounds. -/
def validate (rounds : Nat) (text : List Char) : Except Halt (List Error) :=
  validateLoop text rounds 0 []

end InPlace

/-! ## Bytes and characters decode alike -/

section

variable {α β : Type}

/-- A step that has an outcome is followed by the next one. -/
@[simp] theorem InPlace.ok_bind (value : α) (next : α → Except InPlace.Halt β) :
    (Except.ok value >>= next) = next value := rfl

/-- An outcome that is given back is no halt. -/
@[simp] theorem InPlace.pure_eq_ok (value : α) :
    (pure value : Except InPlace.Halt α) = .ok value := rfl

end

/-- A cut at the offset where one text ends and another begins halts no pass. -/
theorem InPlace.cut_byteLength (before behind : List Char) :
    InPlace.cut (Text.byteLength before) (before ++ behind) = .ok (before, behind) := by
  rw [InPlace.cut, Text.cut?_byteLength]

/-- Reading digits byte by byte meets the same digits, and the first byte of the same character
that is none. -/
theorem InPlace.number_bytes {base count : Nat} {field : List Char} (value : Nat)
    (enough : count ≤ Text.byteLength field) :
    InPlace.number base value ((Text.bytes field).take count) = digits base count value field := by
  induction count generalizing field value with
  | zero => rfl
  | succ count inductionHypothesis =>
    cases field with
    | nil => simp [Text.byteLength] at enough
    | cons c rest =>
      obtain ⟨others, encoded⟩ := Text.utf8EncodeChar_eq_cons c
      rw [Text.bytes_cons, encoded, List.cons_append, List.take_succ_cons, InPlace.number,
        Text.ofByte_leadByte, digits]
      have digit : digitValue base (Text.leading c) = digitValue base c := by
        refine Option.ext fun value => ?_
        exact Text.leading_iff (fun c => digitValue base c = some value)
          (fun _ => toNat_lt_of_digitValue) c
      rw [digit]
      cases known : digitValue base c with
      | none => rfl
      | some _ =>
        have size : c.utf8Size = 1 := utf8Size_of_toNat_lt (toNat_lt_of_digitValue known)
        obtain rfl : others = [] := by
          have length := congrArg List.length encoded
          rw [String.length_utf8EncodeChar, size] at length
          exact List.length_eq_zero_iff.mp (by simpa using length.symm)
        refine inductionHypothesis _ ?_
        rw [Text.byteLength, size] at enough
        omega

/-- The character whose code is written behind some text is the same by bytes and by characters,
also when the text ends too early. -/
theorem InPlace.numbered_bytes (base count : Nat) (front field : List Char) :
    InPlace.numbered (Text.bytes (front ++ field)) base count (Text.byteLength front) =
      Escape.numbered base count field := by
  have dropped : (Text.bytes (front ++ field)).drop (Text.byteLength front) = Text.bytes field := by
    rw [Text.bytes_append, ← Text.length_bytes front, List.drop_left]
  have length : (Text.bytes (front ++ field)).length =
      Text.byteLength front + Text.byteLength field := by
    rw [Text.length_bytes, Text.byteLength_append]
  rw [InPlace.numbered, Escape.numbered, dropped, length]
  by_cases short : Text.byteLength field < count
  · rw [if_pos (by omega), if_pos short]
  · have enough : count ≤ Text.byteLength field := Nat.le_of_not_lt short
    rw [if_neg (by omega), if_neg short]
    cases read : digits base count 0 field <;> simp only [InPlace.number_bytes 0 enough, read]

/-- Decoding by bytes gives what decoding by characters gives, without a cut inside a character. The
bytes read to tell the kinds of sequences apart are those of a character below 128, and no larger
character has such a byte in front. -/
theorem InPlace.decode_byteLength (before rest : List Char) :
    InPlace.decode (before ++ '\\' :: rest) (Text.byteLength before) =
      .ok ((Escape.decode rest).map fun taken =>
        (taken.1, Text.byteLength before + 1 + taken.2)) := by
  -- The text behind the backslash begins one byte after it.
  have split : before ++ '\\' :: rest = (before ++ ['\\']) ++ rest := by simp
  have place : Text.byteLength before + 1 = Text.byteLength (before ++ ['\\']) := by
    rw [Text.byteLength_append]
    rfl
  have byte : (Text.bytes (before ++ '\\' :: rest))[Text.byteLength before + 1]? =
      (Text.bytes rest)[0]? := by
    rw [split, place, Text.bytes_append, ← Text.length_bytes (before ++ ['\\']),
      List.getElem?_append_right (Nat.le_refl _), Nat.sub_self]
  rw [InPlace.decode]
  simp only [byte]
  cases rest with
  | nil => rfl
  | cons kind body =>
    obtain ⟨others, encoded⟩ := Text.utf8EncodeChar_eq_cons kind
    have first : (Text.bytes (kind :: body))[0]? = some (UInt8.ofNat (Text.leadByte kind)) := by
      rw [Text.bytes_cons, encoded]
      rfl
    have letter : simple (Text.leading kind) = simple kind := by
      refine Option.ext fun c => ?_
      exact Text.leading_iff (fun kind => simple kind = some c)
        (fun _ => toNat_lt_of_simple) kind
    have octal : ('0' ≤ Text.leading kind ∧ Text.leading kind ≤ '7') ↔ ('0' ≤ kind ∧ kind ≤ '7') :=
      Text.leading_iff (fun c => '0' ≤ c ∧ c ≤ '7')
        (fun c digit => lt_of_le_of_lt (show c.toNat ≤ 55 from digit.2) (by decide)) kind
    have hexadecimal : Text.leading kind = 'x' ↔ kind = 'x' :=
      Text.leading_iff (· = 'x') (by rintro c rfl; decide) kind
    simp only [first, Text.ofByte_leadByte, letter, octal, hexadecimal, Escape.decode]
    cases simple kind with
    | some c => rfl
    | none =>
      simp only
      split_ifs with digit marked
      · rw [split, place, InPlace.numbered_bytes]
        cases Escape.numbered 8 3 (kind :: body) <;> rfl
      · subst marked
        have split : before ++ '\\' :: 'x' :: body = (before ++ ['\\', 'x']) ++ body := by simp
        have start : Text.byteLength before + 2 = Text.byteLength (before ++ ['\\', 'x']) := by
          rw [Text.byteLength_append]
          rfl
        rw [split, start, InPlace.numbered_bytes, ← start]
        cases Escape.numbered 16 2 body <;> rfl
      · rw [split, place, InPlace.cut_byteLength]
        rfl

/-! ## The loops come to their end -/

/-- A text without backslashes is its own value. -/
theorem evaluateFrom_of_notMem (offset : Nat) {plain : List Char} (none : '\\' ∉ plain) :
    evaluateFrom offset plain = .ok plain := by
  induction plain generalizing offset with
  | nil => exact evaluateFrom_nil offset
  | cons c rest inductionHypothesis =>
    obtain ⟨other, later⟩ := not_or.mp fun member => none (List.mem_cons.mpr member)
    rw [evaluateFrom_plain offset (Ne.symm other), inductionHypothesis _ later]
    rfl

/-- Without backslashes in front, the faults are those of the rest of the text, at offsets behind
what is in front. -/
theorem validateFrom_append_of_notMem (offset : Nat) {plain : List Char} (none : '\\' ∉ plain)
    (rest : List Char) :
    validateFrom offset (plain ++ rest) =
      validateFrom (offset + Text.byteLength plain) rest := by
  induction plain generalizing offset with
  | nil => rfl
  | cons c others inductionHypothesis =>
    obtain ⟨other, later⟩ := not_or.mp fun member => none (List.mem_cons.mpr member)
    rw [List.cons_append, validateFrom_plain offset (Ne.symm other), inductionHypothesis _ later,
      Text.byteLength, Nat.add_assoc]

namespace InPlace

/-- Without a backslash in a text there is no number of bytes before the first one. -/
theorem backslash?_of_notMem {text : List Char} (absent : '\\' ∉ text) :
    backslash? text = none := by
  induction text with
  | nil => rfl
  | cons c others inductionHypothesis =>
    obtain ⟨other, later⟩ := not_or.mp fun member => absent (List.mem_cons.mpr member)
    rw [backslash?, if_neg (Ne.symm other), inductionHypothesis later]
    rfl

/-- The first backslash has as many bytes before it as the text in front takes. -/
theorem backslash?_append {plain : List Char} (absent : '\\' ∉ plain) (after : List Char) :
    backslash? (plain ++ '\\' :: after) = some (Text.byteLength plain) := by
  induction plain with
  | nil => exact if_pos rfl
  | cons c others inductionHypothesis =>
    obtain ⟨other, later⟩ := not_or.mp fun member => absent (List.mem_cons.mpr member)
    rw [List.cons_append, backslash?, if_neg (Ne.symm other), inductionHypothesis later]
    rfl

section

variable {plain after : List Char} (absent : '\\' ∉ plain) (before : List Char)

include absent

/-- A round of the evaluation in front of a backslash. The characters up to the backslash are
copied. A sequence that can be decoded adds its character, and any other ends the evaluation. -/
theorem evaluateLoop_succ (rounds : Nat) (written : List Char) :
    evaluateLoop (before ++ (plain ++ '\\' :: after)) (rounds + 1) (Text.byteLength before)
        written =
      match Escape.decode after with
      | .error problem => .ok (.error ⟨Text.byteLength before + Text.byteLength plain, problem⟩)
      | .ok (c, taken) =>
        evaluateLoop (before ++ (plain ++ '\\' :: after)) rounds
          (Text.byteLength before + Text.byteLength plain + 1 + taken)
          (written ++ plain ++ [c]) := by
  have decoded := decode_byteLength (before ++ plain) after
  rw [List.append_assoc, Text.byteLength_append] at decoded
  rw [evaluateLoop, cut_byteLength]
  simp only [ok_bind, backslash?_append absent, cut_byteLength, decoded]
  cases Escape.decode after <;> rfl

/-- A round of the validation in front of a backslash. A sequence that can be decoded is stepped
over. Behind one that cannot, an error is added at the place of the backslash, and only the
character after it is stepped over. -/
theorem validateLoop_succ (rounds : Nat) (errors : List Error) :
    validateLoop (before ++ (plain ++ '\\' :: after)) (rounds + 1) (Text.byteLength before)
        errors =
      let place := Text.byteLength before + Text.byteLength plain
      let (found, next) := match Escape.decode after with
        | .ok (_, taken) => (errors, place + 1 + taken)
        | .error problem =>
          (errors ++ [⟨place, problem⟩], place + 1 + Text.byteLength (after.take 1))
      if Text.byteLength (before ++ (plain ++ '\\' :: after)) ≤ next then .ok found
      else validateLoop (before ++ (plain ++ '\\' :: after)) rounds next found := by
  have decoded := decode_byteLength (before ++ plain) after
  rw [List.append_assoc, Text.byteLength_append] at decoded
  rw [validateLoop, cut_byteLength]
  simp only [ok_bind, backslash?_append absent, decoded]
  cases Escape.decode after with
  | ok taken =>
    simp only [Except.map, ok_bind, pure_eq_ok]
  | error problem =>
    have following : cut (Text.byteLength before + Text.byteLength plain + 1)
        (before ++ (plain ++ '\\' :: after)) = .ok (before ++ plain ++ ['\\'], after) := by
      have place : Text.byteLength before + Text.byteLength plain + 1 =
          Text.byteLength (before ++ plain ++ ['\\']) := by
        rw [Text.byteLength_append, Text.byteLength_append]
        rfl
      rw [place, ← cut_byteLength]
      simp
    have size : (after.head?.map Char.utf8Size).getD 0 = Text.byteLength (after.take 1) := by
      cases after <;> rfl
    simp only [Except.map, following, ok_bind, pure_eq_ok, size]

end

/-- The bytes up to the end of what follows a backslash. -/
theorem byteLength_behind (before plain taken : List Char) :
    Text.byteLength (before ++ (plain ++ '\\' :: taken)) =
      Text.byteLength before + Text.byteLength plain + 1 + Text.byteLength taken := by
  rw [Text.byteLength_append, Text.byteLength_append, Text.byteLength, Nat.add_assoc _ 1,
    Nat.add_assoc]
  rfl

/-- Each round of the evaluation takes one backslash out of the text that is left.

Proof: induction on the rounds, with the place known by what stands before it. Behind a sequence
it is again known by what stands before. -/
theorem evaluateLoop_byteLength {rounds : Nat} {rest : List Char}
    (enough : rest.count '\\' < rounds) (before written : List Char) :
    evaluateLoop (before ++ rest) rounds (Text.byteLength before) written =
      .ok ((evaluateFrom (Text.byteLength before) rest).map (written ++ ·)) := by
  induction rounds generalizing before rest written with
  | zero => exact absurd enough (Nat.not_lt_zero _)
  | succ rounds inductionHypothesis =>
    by_cases found : '\\' ∈ rest
    · obtain ⟨plain, after, rfl, absent⟩ := List.eq_append_cons_of_mem found
      rw [evaluateLoop_succ absent,
        evaluateFrom_append (evaluateFrom_of_notMem (Text.byteLength before) absent)]
      cases decoded : Escape.decode after with
      | error problem =>
        rw [evaluateFrom_fault _ decoded]
        rfl
      | ok taken =>
        obtain ⟨sequence, behind, rfl, length, denoted⟩ := decode_eq_ok decoded
        have left : behind.count '\\' < rounds := by
          simp only [List.count_append, List.count_cons_self] at enough
          omega
        have continued := inductionHypothesis left (before ++ (plain ++ '\\' :: sequence))
          (written ++ plain ++ [taken.1])
        rw [byteLength_behind, denoted.bytes] at continued
        simp only [List.append_assoc, List.cons_append] at continued
        simp only [← length, List.append_assoc]
        rw [continued, denoted.evaluateFrom_eq]
        cases evaluateFrom _ behind <;> simp [Except.map]
    · rw [evaluateLoop, cut_byteLength, evaluateFrom_of_notMem _ found]
      simp only [ok_bind, backslash?_of_notMem found]
      rfl

/-- That nothing is left is noticed without another round, which would come to the same. A loop that
tests for the end before a round, instead of in the round, is the same loop. -/
theorem validateLoop_unless_ended {rounds : Nat} {before rest : List Char} {errors : List Error}
    (left : validateLoop (before ++ rest) rounds (Text.byteLength before) errors =
      .ok (errors ++ validateFrom (Text.byteLength before) rest)) :
    (if Text.byteLength (before ++ rest) ≤ Text.byteLength before then .ok errors
      else validateLoop (before ++ rest) rounds (Text.byteLength before) errors) =
      .ok (errors ++ validateFrom (Text.byteLength before) rest) := by
  split_ifs with atEnd
  · rw [Text.byteLength_append] at atEnd
    obtain rfl := Text.byteLength_eq_zero_iff.mp (show Text.byteLength rest = 0 by omega)
    rw [validateFrom_nil, List.append_nil]
  · exact left

/-- Each round of the validation takes one backslash out of the text that is left, also behind a
faulty sequence. -/
theorem validateLoop_byteLength {rounds : Nat} {rest : List Char}
    (enough : rest.count '\\' < rounds) (before : List Char) (errors : List Error) :
    validateLoop (before ++ rest) rounds (Text.byteLength before) errors =
      .ok (errors ++ validateFrom (Text.byteLength before) rest) := by
  induction rounds generalizing before rest errors with
  | zero => exact absurd enough (Nat.not_lt_zero _)
  | succ rounds inductionHypothesis =>
    by_cases found : '\\' ∈ rest
    · obtain ⟨plain, after, rfl, absent⟩ := List.eq_append_cons_of_mem found
      -- The round ends behind some characters that follow the backslash.
      have goesOn (taken behind : List Char) (faults : List Error)
          (same : after = taken ++ behind) :
          (if Text.byteLength (before ++ (plain ++ '\\' :: after)) ≤
              Text.byteLength before + Text.byteLength plain + 1 + Text.byteLength taken then
            .ok faults
          else validateLoop (before ++ (plain ++ '\\' :: after)) rounds
            (Text.byteLength before + Text.byteLength plain + 1 + Text.byteLength taken) faults) =
          .ok (faults ++ validateFrom
            (Text.byteLength before + Text.byteLength plain + 1 + Text.byteLength taken)
            behind) := by
        have joined : before ++ (plain ++ '\\' :: (taken ++ behind)) =
            before ++ (plain ++ '\\' :: taken) ++ behind := by simp
        have fewer : behind.count '\\' < rounds := by
          simp only [same, List.count_append, List.count_cons_self] at enough
          omega
        rw [same, ← byteLength_behind, joined]
        exact validateLoop_unless_ended (inductionHypothesis fewer _ faults)
      rw [validateLoop_succ absent, validateFrom_append_of_notMem _ absent]
      cases decoded : Escape.decode after with
      | error problem =>
        simp only
        rw [goesOn (after.take 1) (after.drop 1) _ (List.take_append_drop 1 after).symm,
          validateFrom_fault _ decoded]
        simp
      | ok taken =>
        obtain ⟨sequence, behind, rfl, length, denoted⟩ := decode_eq_ok decoded
        simp only
        rw [← length, ← denoted.bytes, goesOn sequence behind _ rfl, denoted.validateFrom_eq,
          denoted.bytes]
    · rw [validateLoop, cut_byteLength]
      simp only [ok_bind, backslash?_of_notMem found]
      have faultless := validateFrom_append_of_notMem (Text.byteLength before) found []
      rw [List.append_nil, validateFrom_nil] at faultless
      rw [faultless, List.append_nil]
      rfl

variable {rounds : Nat} {text : List Char} (enough : text.count '\\' < rounds)

include enough

/-- Evaluation by bytes is evaluation by characters. -/
theorem evaluate_eq_ok : evaluate rounds text = .ok (Escape.evaluate text) := by
  refine (evaluateLoop_byteLength enough [] []).trans ?_
  exact congrArg Except.ok (congrFun Except.map_id (evaluateFrom 0 text))

/-- Validation by bytes is validation by characters. -/
theorem validate_eq_ok : validate rounds text = .ok (Escape.validate text) :=
  validateLoop_byteLength enough [] []

end InPlace

end Escape

end Parlance
