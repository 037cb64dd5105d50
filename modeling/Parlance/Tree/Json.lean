import Parlance.Json.Decoder
import Parlance.Json.Value
import Parlance.Tree.Basic

/-!
# Tokens and trees as JSON

Tokens are records of their text, class, line, column, offset and file. Trees are
records whose first field says whether they are a leaf, which goes on with the
fields of its token, or a branch, which goes on with its name and its children.
Reading accepts the fields in any order.
-/

namespace Parlance

/-- The fields of a token in the order in which they are written. -/
def Token.fields (token : Token) : List (String × Json.Value) := [
  ("value", .text token.value),
  ("tag", .text token.tag.name),
  ("line", .integer token.position.line),
  ("column", .integer token.position.column),
  ("offset", .integer token.position.offset),
  ("file", .text token.file)]

/-- The token as a JSON record. -/
def Token.toValue (token : Token) : Json.Value := .record token.fields

/-- A list of tokens as JSON text. -/
def Token.listing (tokens : List Token) : String :=
  (Json.Value.list (tokens.map Token.toValue)).pretty

namespace Tree

mutual

/-- The tree as a JSON record. -/
def toValue : Tree → Json.Value
  | .leaf token => .record (("kind", .text "leaf") :: token.fields)
  | .branch name children =>
    .record [("kind", .text "branch"), ("name", .text name),
      ("children", .list (toValues children))]

/-- Several trees as JSON records. -/
def toValues : List Tree → List Json.Value
  | [] => []
  | tree :: trees => tree.toValue :: toValues trees

end

/-- The tree as JSON text. -/
def pretty (tree : Tree) : String := tree.toValue.pretty

/-- The fields of a tree's record as they have been read so far. -/
structure Draft where
  kind : String := ""
  token : Token := {}
  name : String := ""
  children : List Tree := []

/-- The fields of a tree's record, with the list of children read by `children`. -/
def draftFields (children : Json.Document → Json.Decoded (List Tree)) :
    List (Json.Field Draft) := [
  .plain "kind" (·.asText) fun draft kind => { draft with kind },
  .plain "value" (·.asText) fun draft value => { draft with token.value := value },
  ⟨"tag", fun draft _ document => do
    match Tag.ofName? (← document.asText) with
    | some tag => return { draft with token.tag := tag }
    | none => throw .shape⟩,
  .plain "line" (·.asInteger 0 Json.greatestWord) fun draft line =>
    { draft with token.position.line := line.toNat },
  .plain "column" (·.asInteger 0 Json.greatestWord) fun draft column =>
    { draft with token.position.column := column.toNat },
  .plain "offset" (·.asInteger 0 Json.greatestWord) fun draft offset =>
    { draft with token.position.offset := offset.toNat },
  .plain "file" (·.asText) fun draft file => { draft with token.file := file },
  .plain "name" (·.asText) fun draft name => { draft with name },
  .plain "children" children fun draft children => { draft with children }]

/-- Read a tree from a document with at most the given number of nested records
and lists, a list of no children being one too. -/
def decode : Nat → Json.Document → Json.Decoded Tree
  | 0, _ => .error .shape
  | levels + 1, document => do
    let children (held : Json.Document) : Json.Decoded (List Tree) := match levels with
      | 0 => .error .shape
      | inner + 1 => held.asList (decode inner)
    let draft ← document.asRecord (draftFields children) ["kind"] {}
    if draft.kind = "leaf" then return .leaf draft.token
    else if draft.kind = "branch" then return .branch draft.name draft.children
    else throw .shape

/-- The deepest nesting of records and lists that is read back. -/
def nestingLimit : Nat := 127

/-- Read a tree from JSON text. -/
def ofJson? (text : String) : Option Tree :=
  (Json.decodeText (decode nestingLimit) text.toList).toOption

end Tree

end Parlance
