import Parlance.Literal.Binary64
import Parlance.Literal.Integer

/-!
# Floating literals

A floating literal is a mantissa, decimal digits with an optional minus sign and
at most one point, and optionally an exponent behind the first `e` or `E`. Its
value is that of the same text in the standard notation for decimal numbers, which
is read for itself and given by the bits of the nearest binary64 number.

The standard notation also has words for infinity and for what is no number. They
are left out: no floating literal has that form.
-/

namespace Parlance.Literal

/-! ## The form of a literal -/

/-- Whether `c` is a decimal digit. -/
def isDecimalDigit (c : Char) : Bool := '0' ≤ c && c ≤ '9'

/-- Whether `c` separates mantissa and exponent. -/
def marksExponent (c : Char) : Bool := c = 'e' || c = 'E'

/-- Whether `text` is a mantissa: behind an optional minus sign digits, at least one
of them, and at most one point among them. -/
def isMantissa (text : List Char) : Bool :=
  let body := if text.head? = some '-' then text.tail else text
  body.all (fun c => c = '.' || isDecimalDigit c) && body.count '.' ≤ 1 && body.any isDecimalDigit

/-- The text behind a sign, if it begins with one. -/
def unsigned (text : List Char) : List Char :=
  if text.head? = some '-' || text.head? = some '+' then text.tail else text

/-- Whether `text` is an exponent: an optional sign and at least one digit. -/
def isExponent (text : List Char) : Bool :=
  !(unsigned text).isEmpty && (unsigned text).all isDecimalDigit

/-- Whether a floating literal has an exponent, if `text` has the form of one. -/
def floatingShape? (text : List Char) : Option Bool :=
  match text.dropWhile (fun c => !marksExponent c) with
  | [] => if isMantissa text then some false else none
  | _ :: exponent =>
    if isMantissa (text.takeWhile (fun c => !marksExponent c)) && isExponent exponent then some true
    else none

/-- Whether `text` has the form of a floating literal, one with an exponent only
when `scientific` is set. -/
def isFloating (scientific : Bool) (text : String) : Bool :=
  match floatingShape? text.toList with
  | none => false
  | some hasExponent => !hasExponent || scientific

/-! ## Decimal numbers -/

/-- A decimal number taken apart. -/
structure Decimal where
  negative : Bool
  /-- All digits, those behind the point included. -/
  digits : List Char
  /-- The number of digits behind the point. -/
  places : Nat
  exponent : Int
deriving DecidableEq, Repr

/-- The number written by decimal digits. -/
def natural (digits : List Char) : Nat :=
  digits.foldl (fun value c => 10 * value + (Escape.digitValue 10 c).getD 0) 0

/-- The exponent written by all of `text`, where nothing stands for no exponent. -/
def exponent? (text : List Char) : Option Int :=
  match text with
  | [] => some 0
  | mark :: signed =>
    let digits := unsigned signed
    if marksExponent mark && !digits.isEmpty && digits.all isDecimalDigit then
      some (if signed.head? = some '-' then -(natural digits : Int) else natural digits)
    else none

/-- The digits at the start of `text` before and behind a point, and what follows them. -/
def cutDigits (text : List Char) : List Char × List Char × List Char :=
  let whole := text.takeWhile isDecimalDigit
  match text.dropWhile isDecimalDigit with
  | '.' :: behind => (whole, behind.takeWhile isDecimalDigit, behind.dropWhile isDecimalDigit)
  | rest => (whole, [], rest)

/-- Read a decimal number in the standard notation: an optional sign, digits with a
point before, between or behind them, and an optional exponent. -/
def decimal? (text : List Char) : Option Decimal :=
  let (whole, places, rest) := cutDigits (unsigned text)
  if whole.isEmpty && places.isEmpty then none
  else (exponent? rest).map (⟨text.head? = some '-', whole ++ places, places.length, ·⟩)

/-- The bits of the binary64 number nearest to a decimal number. -/
def Decimal.bits (decimal : Decimal) : Nat :=
  binary64 decimal.negative (natural decimal.digits) (decimal.exponent - decimal.places)

/-- The value of a floating literal, as the bits of a binary64 number. -/
def floating (scientific : Bool) (text : String) : Except Error Nat :=
  match floatingShape? text.toList with
  | none => .error (.notALiteral .floating text)
  | some hasExponent =>
    if hasExponent && !scientific then .error (.scientificNotAllowed text)
    else match decimal? text.toList with
      | none => .error (.notALiteral .floating text)
      | some decimal => .ok decimal.bits

end Parlance.Literal
