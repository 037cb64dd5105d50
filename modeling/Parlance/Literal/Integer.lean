import Parlance.Literal.Quoted

/-!
# Integer literals

An integer has an optional minus sign and one of four notations: hexadecimal
behind `0x`, hexadecimal before `h` when it begins with a decimal digit, octal
when it has at least two digits, begins with zero and has octal digits only, and
decimal otherwise. The digits are added up in 128 bits, then the sign is applied;
what does not fit into 128 bits on the way, or into 64 bits in the end, is refused.
-/

namespace Parlance.Literal

/-- An integer literal taken apart. -/
structure IntegerForm where
  negative : Bool
  digits : List Char
  base : Nat
deriving DecidableEq, Repr

/-- Whether `text` is a nonempty run of digits of the given base. -/
def areDigits (base : Nat) (text : List Char) : Bool :=
  !text.isEmpty && text.all (fun c => (Escape.digitValue base c).isSome)

/-- Take apart the part of an integer literal behind its sign. -/
def integerBody? (negative : Bool) (body : List Char) : Option IntegerForm :=
  match (behind? ['0', 'x'] body).or (behind? ['0', 'X'] body) with
  | some hex => if areDigits 16 hex then some ⟨negative, hex, 16⟩ else none
  | none => match before? ['h'] body with
    | some hex =>
      if areDigits 16 hex && (hex.head?.map (fun c => '0' ≤ c && c ≤ '9')).getD false then
        some ⟨negative, hex, 16⟩
      else none
    | none =>
      if 1 < body.length && body.head? = some '0' && areDigits 8 body then
        some ⟨negative, body.tail, 8⟩
      else if areDigits 10 body then some ⟨negative, body, 10⟩
      else none

/-- Take an integer literal apart, if `text` is one. -/
def integerForm? (text : List Char) : Option IntegerForm :=
  match text with
  | '-' :: body => integerBody? true body
  | body => integerBody? false body

/-- The greatest integer of 128 bits. -/
def greatestWide : Nat := 170141183460469231731687303715884105727

/-- The number with one more digit of the given base, unless `c` is no digit or the
result needs more than 128 bits. -/
def withDigit? (base value : Nat) (c : Char) : Option Nat :=
  (Escape.digitValue base c).bind fun digit =>
    let next := value * base + digit
    if next ≤ greatestWide then some next else none

/-- The number written by a nonempty run of digits of the given base, unless it needs
more than 128 bits. -/
def wide? (base : Nat) (digits : List Char) : Option Nat :=
  if digits.isEmpty then none else digits.foldlM (withDigit? base) 0

/-- The integer that a literal denotes, unless its digits need more than 128 bits. -/
def IntegerForm.value? (form : IntegerForm) : Option Int :=
  (wide? form.base form.digits).map fun (magnitude : Nat) =>
    if form.negative then -(magnitude : Int) else magnitude

/-- Whether `text` has the form of an integer literal. -/
def isInteger (text : String) : Bool := (integerForm? text.toList).isSome

/-- The least integer of 64 bits. -/
def leastInteger : Int := -9223372036854775808

/-- The greatest integer of 64 bits. -/
def greatestInteger : Int := 9223372036854775807

/-- The value of an integer literal. -/
def integer (text : String) : Except Error Int :=
  match integerForm? text.toList with
  | none => .error (.notALiteral .integer text)
  | some form =>
    match form.value? with
    | none => .error (.integerOverflow text)
    | some value =>
      if leastInteger ≤ value ∧ value ≤ greatestInteger then .ok value
      else .error (.integerOverflow text)

end Parlance.Literal
