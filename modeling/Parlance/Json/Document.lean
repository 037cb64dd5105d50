import Parlance.Text.Utf8

/-!
# JSON documents as they are read

Reading never fails: it yields a document that holds, at the place where the text
stops being JSON, the fault that a reader would meet there. A consumer walks the
document in the order of the text, so whatever it finds wrong first, a value of
an unexpected shape or a fault of the text, is what it reports.

Two kinds of consumer disagree on a few texts. One that needs a value refuses a
string with an unpaired surrogate and a number beyond the range of binary64; one
that only skips over the value accepts both. A fault therefore records what each
of the two meets.
-/

namespace Parlance.Json

/-- How a text fails to be JSON. -/
inductive Lapse where
  /-- Something stands where it may not. -/
  | malformed
  /-- The text ends too early. -/
  | truncated
deriving DecidableEq, Repr

/-- A failure to read on, with the text that was still unread at that moment. -/
structure Fault where
  lapse : Lapse
  unread : List Char
deriving DecidableEq, Repr

/-- The line of `text`, counted from one, on which a fault was met. -/
def Fault.line (fault : Fault) (text : List Char) : Nat :=
  1 + text.count '\n' - fault.unread.count '\n'

/-- The end of an array or object. `next` is the fault met when looking for a
further item, absent at a closing bracket; `other` is the fault met by a reader
that wants anything else there. -/
structure Stop where
  next : Option Fault
  other : Fault
deriving DecidableEq, Repr

mutual

/-- A document in reading order. -/
inductive Document where
  | null
  | boolean (value : Bool)
  | integer (value : Int)
  /-- A number written with a fraction or an exponent, or minus zero. -/
  | fraction
  | text (value : String)
  | array (items : Items)
  | object (members : Members)
  /-- No value: the fault met when reading it, and the one met when skipping it,
  absent when the text can be skipped. -/
  | unusable (reading : Fault) (skipping : Option Fault)

/-- Array items. Each carries the fault of a reader that cannot begin there. -/
inductive Items where
  | stop (stop : Stop)
  | item (misfit : Fault) (value : Document) (more : Items)

/-- Object members. Each carries the fault of a reader that expected none there,
and that of a reader that cannot begin at its value. -/
inductive Members where
  | stop (stop : Stop)
  /-- No key where the first one is wanted: the fault of a reader of members, and
  what a reader of any value finds there. -/
  | stray (fault : Fault) (value : Document)
  | member (surplus : Fault) (key : Document) (misfit : Fault) (value : Document)
      (more : Members)

end

/-- What reading one value gives: the value and the text behind it, absent when
nothing behind it can be read. -/
abbrev Reading := Document × Option (List Char)

/-- A value that neither reading nor skipping gets past. -/
def broken (lapse : Lapse) (unread : List Char) : Reading :=
  (.unusable ⟨lapse, unread⟩ (some ⟨lapse, unread⟩), none)

/-- A number that breaks off: reading finds the text too short, skipping finds
the number malformed. -/
def brokenNumber : Reading :=
  (.unusable ⟨.truncated, []⟩ (some ⟨.malformed, []⟩), none)

/-- The characters that may stand between the tokens of a document. -/
def isSpace (c : Char) : Bool := c = ' ' || c = '\n' || c = '\t' || c = '\r'

/-- The text behind leading spaces. -/
def skipSpace (text : List Char) : List Char := text.dropWhile isSpace

/-- Read the remaining letters of a word that stands for `value`. -/
def readWord (value : Document) : List Char → List Char → Reading
  | [], text => (value, some text)
  | _ :: _, [] => broken .truncated []
  | letter :: letters, c :: rest =>
    if c = letter then readWord value letters rest else broken .malformed rest

/-- Whether `c` is a decimal digit. -/
def isDigit (c : Char) : Bool := '0' ≤ c && c ≤ '9'

/-- The number written by decimal digits. -/
def decimal (digits : List Char) : Nat :=
  digits.foldl (fun value c => 10 * value + (c.toNat - '0'.toNat)) 0

/-- The least value that no longer rounds to a finite binary64 number. -/
def rangeLimit : Nat := Nat.pow 2 1024 - Nat.pow 2 970

/-- Whether the digits, read as an integer times the given power of ten, exceed
the range of binary64. The number of significant digits decides all but the
borderline magnitudes. -/
def exceedsRange (digits : List Char) (exponent : Int) : Bool :=
  let significant := digits.dropWhile (· = '0')
  let magnitude := (significant.length : Int) + exponent
  if significant.isEmpty || magnitude ≤ 308 then false
  else if 310 ≤ magnitude then true
  else if 0 ≤ exponent then rangeLimit ≤ decimal significant * Nat.pow 10 exponent.toNat
  else rangeLimit * Nat.pow 10 (-exponent).toNat ≤ decimal significant

/-- A number read to its end, before `rest`. -/
def finishNumber (value : Document) (digits : List Char) (exponent : Int)
    (rest : List Char) : Reading :=
  if exceedsRange digits exponent then (.unusable ⟨.malformed, rest⟩ none, some rest)
  else (value, some rest)

/-- Read the exponent of a number, if `text` begins with one; otherwise the number
ends here and is `value`. -/
def readExponent (value : Document) (digits : List Char) (scale : Nat)
    (text : List Char) : Reading :=
  match text with
  | c :: rest =>
    if c = 'e' || c = 'E' then
      let negative := rest.head? = some '-'
      let body := if negative || rest.head? = some '+' then rest.tail else rest
      match body with
      | [] => brokenNumber
      | d :: tail =>
        if isDigit d then
          let power : Int := decimal (body.takeWhile isDigit)
          finishNumber .fraction digits ((if negative then -power else power) - scale)
            (body.dropWhile isDigit)
        else broken .malformed tail
    else finishNumber value digits (-scale) text
  | [] => finishNumber value digits (-scale) text

/-- Read a number behind its optional sign. -/
def readNumber (negative : Bool) (text : List Char) : Reading :=
  match text with
  | [] => brokenNumber
  | c :: rest =>
    if !isDigit c then broken .malformed rest
    else if c = '0' && (rest.head?.map isDigit).getD false then broken .malformed rest.tail
    else
      let whole := text.takeWhile isDigit
      let magnitude : Int := decimal whole
      let value := if negative && magnitude = 0 then .fraction
        else .integer (if negative then -magnitude else magnitude)
      match text.dropWhile isDigit with
      | '.' :: behind =>
        let places := behind.takeWhile isDigit
        match places, behind with
        | [], [] => brokenNumber
        | [], _ :: tail => broken .malformed tail
        | _ :: _, _ => readExponent .fraction (whole ++ places) places.length
            (behind.dropWhile isDigit)
      | behind => readExponent value whole 0 behind

/-- The value of a hexadecimal digit. -/
def hexValue (c : Char) : Option Nat :=
  if '0' ≤ c ∧ c ≤ '9' then some (c.toNat - '0'.toNat)
  else if 'a' ≤ c ∧ c ≤ 'f' then some (c.toNat - 'a'.toNat + 10)
  else if 'A' ≤ c ∧ c ≤ 'F' then some (c.toNat - 'A'.toNat + 10)
  else none

/-- Read four hexadecimal digits. Four bytes must remain, whatever they are. -/
def readHex (text : List Char) : Except Fault (Nat × List Char) :=
  if Text.byteLength text < 4 then .error ⟨.truncated, []⟩
  else match (text.take 4).mapM hexValue with
    | some digits => .ok (digits.foldl (fun value digit => 16 * value + digit) 0, text.drop 4)
    | none => .error ⟨.malformed, text.drop (Text.covering 4 text)⟩

/-- Read the escape of a second surrogate, wanted behind the first one `leading`:
the character of the pair and the text behind it. -/
def readTrailing (leading : Nat) (text : List Char) : Except Fault (Char × List Char) :=
  match text with
  | [] => .error ⟨.truncated, []⟩
  | c :: rest =>
    if c ≠ '\\' then .error ⟨.malformed, rest⟩
    else match rest with
      | [] => .error ⟨.truncated, []⟩
      | d :: body =>
        if d ≠ 'u' then .error ⟨.malformed, body⟩
        else match readHex body with
          | .error fault => .error fault
          | .ok (code, behind) =>
            if 0xDC00 ≤ code ∧ code ≤ 0xDFFF then
              .ok (Char.ofNat (0x10000 + (leading - 0xD800) * 0x400 + (code - 0xDC00)), behind)
            else .error ⟨.malformed, behind⟩

/-- The character of an escape by one letter. -/
def escapedLetter : Char → Option Char
  | '"' => some '"'
  | '\\' => some '\\'
  | '/' => some '/'
  | 'b' => some '\x08'
  | 'f' => some '\x0c'
  | 'n' => some '\n'
  | 'r' => some '\r'
  | 't' => some '\t'
  | _ => none

/-- One piece of a string literal. -/
inductive Piece where
  /-- The closing quote, and the text behind it. -/
  | close (rest : List Char)
  /-- A character, and the text behind it. -/
  | character (value : Char) (rest : List Char)
  /-- An escape that can be skipped but denotes no character. -/
  | surrogate (fault : Fault) (rest : List Char)
  /-- The literal is broken for reading and for skipping. -/
  | broken (reading skipping : Fault)

/-- Read the next piece of a string literal. -/
def readPiece (text : List Char) : Piece :=
  match text with
  | [] => .broken ⟨.truncated, []⟩ ⟨.truncated, []⟩
  | '"' :: rest => .close rest
  | '\\' :: [] => .broken ⟨.truncated, []⟩ ⟨.truncated, []⟩
  | '\\' :: 'u' :: rest =>
    match readHex rest with
    | .error fault => .broken fault fault
    | .ok (code, behind) =>
      if 0xDC00 ≤ code ∧ code ≤ 0xDFFF then .surrogate ⟨.malformed, behind⟩ behind
      else if 0xD800 ≤ code ∧ code ≤ 0xDBFF then
        match readTrailing code behind with
        | .ok (c, rest) => .character c rest
        | .error fault => .surrogate fault behind
      else .character (Char.ofNat code) behind
  | '\\' :: c :: rest =>
    match escapedLetter c with
    | some value => .character value rest
    | none => .broken ⟨.malformed, rest⟩ ⟨.malformed, rest⟩
  | c :: rest =>
    if c.toNat < 0x20 then .broken ⟨.malformed, rest⟩ ⟨.malformed, c :: rest⟩
    else .character c rest

/-- Read a string literal behind its opening quote. `spoilt` holds the first fault
that only a reader meets; `fuel` bounds the number of pieces. -/
def readLiteral (spoilt : Option Fault) (value : List Char) : Nat → List Char → Reading
  | 0, _ => broken .truncated []
  | fuel + 1, text =>
    match readPiece text with
    | .close rest =>
      match spoilt with
      | none => (.text (String.ofList value.reverse), some rest)
      | some fault => (.unusable fault none, some rest)
    | .character c rest => readLiteral spoilt (c :: value) fuel rest
    | .surrogate fault rest => readLiteral (some (spoilt.getD fault)) value fuel rest
    | .broken reading skipping => (.unusable (spoilt.getD reading) (some skipping), none)

/-- Read a string literal behind its opening quote. -/
def readString (text : List Char) : Reading := readLiteral none [] (text.length + 1) text

mutual

/-- Read one value. `fuel` bounds the number of values and separators. -/
def readValue : Nat → List Char → Reading
  | 0, _ => broken .truncated []
  | fuel + 1, text =>
    match skipSpace text with
    | [] => broken .truncated []
    | 'n' :: rest => readWord .null ['u', 'l', 'l'] rest
    | 't' :: rest => readWord (.boolean true) ['r', 'u', 'e'] rest
    | 'f' :: rest => readWord (.boolean false) ['a', 'l', 's', 'e'] rest
    | '-' :: rest => readNumber true rest
    | '"' :: rest => readString rest
    | '[' :: rest =>
      let (items, behind) := readItems fuel true rest
      (.array items, behind)
    | '\x7b' :: rest =>
      let (members, behind) := readMembers fuel true rest
      (.object members, behind)
    | c :: rest => if isDigit c then readNumber false (c :: rest) else broken .malformed rest

/-- Read the items of an array from the first one on, or from behind another one. -/
def readItems : Nat → Bool → List Char → Items × Option (List Char)
  | 0, _, _ => (.stop ⟨some ⟨.truncated, []⟩, ⟨.truncated, []⟩⟩, none)
  | fuel + 1, isFirst, text =>
    match skipSpace text with
    | [] => (.stop ⟨some ⟨.truncated, []⟩, ⟨.truncated, []⟩⟩, none)
    | ']' :: rest => (.stop ⟨none, ⟨.malformed, rest⟩⟩, some rest)
    | c :: rest =>
      if isFirst then readItem fuel (c :: rest)
      else if c = ',' then
        match skipSpace rest with
        | [] => (.stop ⟨some ⟨.truncated, []⟩, ⟨.malformed, []⟩⟩, none)
        | ']' :: behind => (.stop ⟨some ⟨.malformed, behind⟩, ⟨.malformed, behind⟩⟩, none)
        | behind => readItem fuel behind
      else (.stop ⟨some ⟨.malformed, rest⟩, ⟨.malformed, rest⟩⟩, none)

/-- Read one item of an array and those behind it. -/
def readItem : Nat → List Char → Items × Option (List Char)
  | 0, _ => (.stop ⟨some ⟨.truncated, []⟩, ⟨.truncated, []⟩⟩, none)
  | fuel + 1, text =>
    let misfit : Fault := ⟨.malformed, text.tail⟩
    match readValue fuel text with
    | (value, none) => (.item misfit value (.stop ⟨some misfit, misfit⟩), none)
    | (value, some rest) =>
      let (more, behind) := readItems fuel false rest
      (.item misfit value more, behind)

/-- Read the members of an object from the first one on, or from behind another
one. -/
def readMembers : Nat → Bool → List Char → Members × Option (List Char)
  | 0, _, _ => (.stop ⟨some ⟨.truncated, []⟩, ⟨.truncated, []⟩⟩, none)
  | fuel + 1, isFirst, text =>
    match skipSpace text with
    | [] => (.stop ⟨some ⟨.truncated, []⟩, ⟨.truncated, []⟩⟩, none)
    | '\x7d' :: rest => (.stop ⟨none, ⟨.malformed, rest⟩⟩, some rest)
    | c :: rest =>
      if isFirst then
        if c = '"' then readMember fuel ⟨.malformed, c :: rest⟩ rest
        else (.stray ⟨.malformed, rest⟩ (readValue fuel (c :: rest)).1, none)
      else if c = ',' then
        match skipSpace rest with
        | [] => (.stop ⟨some ⟨.truncated, []⟩, ⟨.malformed, []⟩⟩, none)
        | '"' :: behind => readMember fuel ⟨.malformed, c :: rest⟩ behind
        | _ :: behind => (.stop ⟨some ⟨.malformed, behind⟩, ⟨.malformed, behind⟩⟩, none)
      else (.stop ⟨some ⟨.malformed, rest⟩, ⟨.malformed, rest⟩⟩, none)

/-- Read one member of an object, from behind the quote that opens its key, and
those behind it. -/
def readMember : Nat → Fault → List Char → Members × Option (List Char)
  | 0, surplus, _ => (.stop ⟨some surplus, surplus⟩, none)
  | fuel + 1, surplus, text =>
    match readString text with
    | (key, none) =>
      (.member surplus key surplus key (.stop ⟨some surplus, surplus⟩), none)
    | (key, some rest) =>
      match skipSpace rest with
      | ':' :: body =>
        let misfit : Fault := ⟨.malformed, (skipSpace body).tail⟩
        match readValue fuel body with
        | (value, none) =>
          (.member surplus key misfit value (.stop ⟨some misfit, misfit⟩), none)
        | (value, some behind) =>
          let (more, left) := readMembers fuel false behind
          (.member surplus key misfit value more, left)
      | [] =>
        (.member surplus key surplus (broken .truncated []).1 (.stop ⟨some surplus, surplus⟩), none)
      | _ :: behind =>
        (.member surplus key surplus (broken .malformed behind).1
          (.stop ⟨some surplus, surplus⟩), none)

end

/-- The document at the start of `text` and the text behind it. Each value and each
separator takes at least one character, so the bound is never reached. -/
def Document.read (text : List Char) : Reading := readValue (4 * text.length + 4) text

end Parlance.Json
