import Parlance.Text.Utf8

/-!
# Escape sequences in literals

A backslash in the body of a character or string literal begins an escape
sequence: one of eleven letters, three octal digits, or `x` with two hexadecimal
digits. Evaluation replaces each sequence by its character and stops at the first
faulty one. Validation lists every faulty sequence and goes on after the
character that follows its backslash. Both report a fault by the byte offset of
its backslash.
-/

namespace Parlance.Escape

/-- What is wrong with an escape sequence. -/
inductive Problem where
  /-- The text ends before the sequence does. -/
  | premature
  /-- A character that is no digit of the base, shown by its first byte. -/
  | invalidDigit (base : Nat) (shown : Char)
  /-- No sequence begins with this character. -/
  | unknown (shown : Char)
  /-- The digits write a number that is the code of no character. -/
  | notCharacter (value : Nat)
deriving DecidableEq, Repr

/-- A faulty escape sequence and the byte offset of its backslash. -/
structure Error where
  offset : Nat
  problem : Problem
deriving DecidableEq, Repr

/-- The wording of a problem. -/
def Problem.message : Problem → String
  | .premature => "escape sequence ended prematurely"
  | .invalidDigit base shown =>
    let system := if base = 8 then "octal" else "hex"
    s!"invalid digit '{shown}' in {system} escape"
  | .unknown shown => s!"unknown escape sequence '\\{shown}'"
  | .notCharacter value => s!"escape value {value} is not a character"

/-- The wording of a problem together with its place. -/
def Error.message (error : Error) : String :=
  s!"{error.problem.message} (at byte {error.offset})"

/-- The character of a one-letter sequence. -/
def simple : Char → Option Char
  | 'a' => some '\x07'
  | 'b' => some '\x08'
  | 'f' => some '\x0c'
  | 'n' => some '\n'
  | 'r' => some '\r'
  | 't' => some '\t'
  | 'v' => some '\x0b'
  | '\\' => some '\\'
  | '\'' => some '\''
  | '"' => some '"'
  | '?' => some '?'
  | _ => none

/-- The value of a digit in the given base, letters of either case included. -/
def digitValue (base : Nat) (c : Char) : Option Nat :=
  let value :=
    if '0' ≤ c ∧ c ≤ '9' then some (c.toNat - '0'.toNat)
    else if 'a' ≤ c ∧ c ≤ 'z' then some (c.toNat - 'a'.toNat + 10)
    else if 'A' ≤ c ∧ c ≤ 'Z' then some (c.toNat - 'A'.toNat + 10)
    else none
  value.filter (· < base)

/-- The number written by the first `count` digits of `text`, or the first of
those characters that is no digit of the base. -/
def digits (base : Nat) : Nat → Nat → List Char → Except Char Nat
  | 0, value, _ => .ok value
  | _ + 1, value, [] => .ok value
  | count + 1, value, c :: rest =>
    match digitValue base c with
    | some digit => digits base count (value * base + digit) rest
    | none => .error (Char.ofNat (Text.leadByte c))

/-- The character with the given code. -/
def coded (value : Nat) : Except Problem Char :=
  if value.isValidChar then .ok (Char.ofNat value) else .error (.notCharacter value)

/-- The character whose code is written by `count` digits of the given base at
the start of `field`. Digits are only looked at when enough bytes for all of them
remain. -/
def numbered (base count : Nat) (field : List Char) : Except Problem Char :=
  if Text.byteLength field < count then .error .premature
  else match digits base count 0 field with
    | .ok value => coded value
    | .error shown => .error (.invalidDigit base shown)

/-- Decode the sequence whose backslash stands before `rest`: its character and
the number of characters of `rest` it takes. -/
def decode (rest : List Char) : Except Problem (Char × Nat) :=
  match rest with
  | [] => .error .premature
  | kind :: body =>
    match simple kind with
    | some c => .ok (c, 1)
    | none =>
      if '0' ≤ kind ∧ kind ≤ '7' then (numbered 8 3 rest).map (·, 3)
      else if kind = 'x' then (numbered 16 2 body).map (·, 3)
      else .error (.unknown kind)

/-- Evaluate the sequences of a text whose first character has the byte offset
`offset`. -/
def evaluateFrom (offset : Nat) : List Char → Except Error (List Char)
  | [] => .ok []
  | c :: rest =>
    if c = '\\' then
      match decode rest with
      | .error problem => .error ⟨offset, problem⟩
      | .ok (value, taken) =>
        (evaluateFrom (offset + 1 + Text.byteLength (rest.take taken)) (rest.drop taken)).map
          (value :: ·)
    else (evaluateFrom (offset + c.utf8Size) rest).map (c :: ·)
termination_by text => text.length
decreasing_by all_goals simp only [List.length_drop, List.length_cons]; omega

/-- The text with every escape sequence replaced by the character it denotes. -/
def evaluate (text : List Char) : Except Error (List Char) := evaluateFrom 0 text

/-- The faulty sequences of a text whose first character has the byte offset
`offset`. After a fault the scan resumes behind the character that follows the
backslash. -/
def validateFrom (offset : Nat) : List Char → List Error
  | [] => []
  | c :: rest =>
    if c = '\\' then
      match decode rest with
      | .error problem =>
        ⟨offset, problem⟩ ::
          validateFrom (offset + 1 + Text.byteLength (rest.take 1)) (rest.drop 1)
      | .ok (_, taken) =>
        validateFrom (offset + 1 + Text.byteLength (rest.take taken)) (rest.drop taken)
    else validateFrom (offset + c.utf8Size) rest
termination_by text => text.length
decreasing_by all_goals simp only [List.length_drop, List.length_cons]; omega

/-- Every faulty escape sequence of the text, in order. -/
def validate (text : List Char) : List Error := validateFrom 0 text

end Parlance.Escape
