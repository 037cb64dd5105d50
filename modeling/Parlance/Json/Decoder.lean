import Parlance.Dictionary
import Parlance.Json.Document

/-!
# Decoding JSON documents

Decoders turn a document into values of the types a program works with. They walk
it in the order of the text and stop at the first thing that is wrong: a value of
an unexpected shape, or a fault of the text.

A record may be written as an object, whose unknown keys are skipped and whose
known keys may each stand once, or as an array of its fields in the order of their
declaration, where missing trailing fields keep their defaults.
-/

namespace Parlance.Json

/-- Why a document was refused. -/
inductive Refusal where
  /-- A value is not of the expected shape or range. -/
  | shape
  /-- The text is not JSON. -/
  | fault (fault : Fault)
deriving DecidableEq, Repr

/-- What a decoder gives. -/
abbrev Decoded (α : Type) := Except Refusal α

/-- The end of an array or object, reached by a reader that looks for more. -/
def Stop.finish {α : Type} (stop : Stop) (value : α) : Decoded α :=
  match stop.next with
  | some fault => .error (.fault fault)
  | none => .ok value

mutual

/-- Skip over a value, whatever it is, unless its text is broken. -/
def Document.skip : Document → Decoded Unit
  | .unusable _ (some fault) => .error (.fault fault)
  | .array items => items.skip
  | .object members => members.skip
  | _ => .ok ()

/-- Skip over the items of an array. -/
def Items.skip : Items → Decoded Unit
  | .stop ending => ending.finish ()
  | .item _ value more => do
    value.skip
    more.skip

/-- Skip over the members of an object. -/
def Members.skip : Members → Decoded Unit
  | .stop ending => ending.finish ()
  | .stray fault _ => .error (.fault fault)
  | .member _ key _ value more => do
    key.skip
    value.skip
    more.skip

end

/-- The largest number of 64 bits without a sign. -/
def greatestWord : Int := 18446744073709551615

namespace Document

/-- Refuse a document that is not of the expected shape, or whose text is broken. -/
def refuse {α : Type} : Document → Decoded α
  | .unusable reading _ => .error (.fault reading)
  | _ => .error .shape

/-- The document as a text. -/
def asText : Document → Decoded String
  | .text value => .ok value
  | other => other.refuse

/-- The document as a truth value. -/
def asBoolean : Document → Decoded Bool
  | .boolean value => .ok value
  | other => other.refuse

/-- The document as an integer from `least` to `greatest`. -/
def asInteger (least greatest : Int) : Document → Decoded Int
  | .integer value => if least ≤ value ∧ value ≤ greatest then .ok value else .error .shape
  | other => other.refuse

/-- The document as a text of exactly one character. -/
def asCharacter : Document → Decoded Char
  | .text value => match value.toList with
    | [c] => .ok c
    | _ => .error .shape
  | other => other.refuse

/-- The document as an optional value, absent when it is `null`. -/
def asOption {α : Type} (decode : Document → Decoded α) : Document → Decoded (Option α)
  | .null => .ok none
  | other => (decode other).map some

end Document

/-- Decode the items of an array in turn. -/
def Items.decode {α : Type} (decode : Document → Decoded α) : Items → Decoded (List α)
  | .stop ending => ending.finish []
  | .item _ value more => do
    let first ← decode value
    let others ← more.decode decode
    return first :: others

/-- Decode the members of an object in turn into a dictionary; of two members with
one key the later stays. -/
def Members.decode {α : Type} (decode : Document → Decoded α) (sofar : Dictionary α) :
    Members → Decoded (Dictionary α)
  | .stop ending => ending.finish sofar
  | .stray fault _ => .error (.fault fault)
  | .member _ key _ value more => do
    let name ← key.asText
    let held ← decode value
    more.decode decode (sofar.insert name held)

/-- The document as an array of values. -/
def Document.asList {α : Type} (decode : Document → Decoded α) : Document → Decoded (List α)
  | .array items => items.decode decode
  | other => other.refuse

/-- The document as an object with arbitrary keys. -/
def Document.asDictionary {α : Type} (decode : Document → Decoded α) :
    Document → Decoded (Dictionary α)
  | .object members => members.decode decode .empty
  | other => other.refuse

/-- A field of a record: its name, and how a document for it is stored. The fault
given is that of a reader that cannot begin at the document. -/
structure Field (σ : Type) where
  name : String
  store : σ → Fault → Document → Decoded σ

/-- A field whose document is decoded by `decode` and stored by `set`. -/
def Field.plain {σ α : Type} (name : String) (decode : Document → Decoded α)
    (set : σ → α → σ) : Field σ :=
  ⟨name, fun record _ document => (decode document).map (set record)⟩

/-- Store the members of an object into a record. `seen` lists the fields stored so
far, none of which may be stored again. -/
def Members.record {σ : Type} (fields : List (Field σ)) (seen : List String) (record : σ) :
    Members → Decoded (σ × List String)
  | .stop ending => ending.finish (record, seen)
  | .stray fault _ => .error (.fault fault)
  | .member _ key misfit value more => do
    let name ← key.asText
    match fields.find? (fun field => field.name = name) with
    | none =>
      value.skip
      more.record fields seen record
    | some field =>
      if seen.contains name then throw .shape
      let updated ← field.store record misfit value
      more.record fields (name :: seen) updated

/-- Store the items of an array into the fields of a record in turn. -/
def Items.record {σ : Type} (seen : List String) (record : σ) :
    List (Field σ) → Items → Decoded (σ × List String)
  | [], .stop ending =>
    if ending.next.isSome then .error (.fault ending.other) else .ok (record, seen)
  | _ :: _, .stop ending => ending.finish (record, seen)
  | [], .item misfit _ _ => .error (.fault misfit)
  | field :: fields, .item misfit value more => do
    let updated ← field.store record misfit value
    Items.record (field.name :: seen) updated fields more

/-- The document as a record that starts out as `initial`; the fields named in
`required` have to be given. -/
def Document.asRecord {σ : Type} (fields : List (Field σ)) (required : List String)
    (initial : σ) (document : Document) : Decoded σ := do
  let (record, seen) ← match document with
    | .object members => members.record fields [] initial
    | .array items => Items.record [] initial fields items
    | other => other.refuse
  if required.all seen.contains then return record else throw .shape

/-- Decode the whole of `text`; only spaces may stand behind the document. -/
def decodeText {α : Type} (decode : Document → Decoded α) (text : List Char) : Decoded α := do
  let (document, rest) := Document.read text
  let value ← decode document
  match skipSpace (rest.getD []) with
  | [] => return value
  | _ :: unread => throw (.fault ⟨.malformed, unread⟩)

end Parlance.Json
