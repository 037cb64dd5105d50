import Parlance.ConfigError
import Parlance.Definitions
import Parlance.Tree.Walk

/-!
# Nesting

A nesting says how tokens become a tree. A bound is a pair of tokens, such as two
braces; what stands between them becomes a branch. A bound may group its contents
into element branches, which a separator divides. Tokens outside of every bound
belong to the root. No two bounds share a start or a closing token, and a bound's
two tokens differ.
-/

namespace Parlance

/-- A pair of tokens and what becomes of the tokens between them. -/
structure Bound where
  /-- The name of the branch. -/
  name : String
  start : String := ""
  closing : String := ""
  /-- The name of the element branches, absent when contents hang from the branch
  itself. -/
  element : Option String := none
  /-- The token that divides elements. -/
  split : Option String := none
  /-- Whether a bound that closes directly inside this one divides elements too. -/
  endIsParentSplit : Bool := false
deriving DecidableEq, Repr, Inhabited

/-- The text, unless it is empty. -/
def nonempty (text : String) : Option String := if text.isEmpty then none else some text

/-- How tokens become a tree: the root, the bounds under their start tokens, and
names that stand for trees. -/
structure Nesting where
  root : Bound := { name := "global" }
  bounds : Dictionary Bound := .empty
  definitions : Definitions Tree := .empty

instance : Inhabited Nesting := ⟨{}⟩

namespace Nesting

/-- The bound that starts with `value`. -/
def opened? (nesting : Nesting) (value : String) : Option Bound := nesting.bounds.find? value

/-- The bound that is closed by `value`. -/
def closed? (nesting : Nesting) (value : String) : Option Bound :=
  nesting.bounds.values.find? (fun bound => bound.closing = value)

/-- Add a bound. An empty element or separator means none. -/
def bind (nesting : Nesting) (name start closing element : String) (split : Option String) :
    Except ConfigError Nesting :=
  if start.isEmpty then .error (.emptyBoundToken name .start)
  else if closing.isEmpty then .error (.emptyBoundToken name .closing)
  else if start = closing then .error (.selfClosingBound name start)
  else if nesting.bounds.contains start then .error (.duplicateBound start)
  else match nesting.closed? closing with
    | some other => .error (.duplicateBoundEnd name closing other.name)
    | none =>
      if (split.bind nonempty).isSome && element.isEmpty then .error (.splitWithoutElement name)
      else
        let bound : Bound :=
          { name, start, closing, element := nonempty element, split := split.bind nonempty }
        .ok { nesting with bounds := nesting.bounds.insert start bound }

/-- Change the bound that starts with `start`, if there is one, as to whether bounds
inside it divide its elements. -/
def setFlag (nesting : Nesting) (start : String) (on : Bool) : Nesting :=
  match nesting.bounds.find? start with
  | none => nesting
  | some bound =>
    { nesting with bounds := nesting.bounds.insert start { bound with endIsParentSplit := on } }

/-- Name the root. -/
def setRootName (nesting : Nesting) (name : String) : Nesting :=
  { nesting with root := { nesting.root with name } }

/-- Group the contents of the root into elements. An empty element or separator
means none. -/
def setRootSplit (nesting : Nesting) (element : String) (split : Option String) :
    Except ConfigError Nesting :=
  if (split.bind nonempty).isSome && element.isEmpty then
    .error (.splitWithoutElement nesting.root.name)
  else
    .ok { nesting with
      root := { nesting.root with element := nonempty element, split := split.bind nonempty } }

/-- Set whether bounds that close at the root divide its elements. -/
def setRootFlag (nesting : Nesting) (on : Bool) : Nesting :=
  { nesting with root := { nesting.root with endIsParentSplit := on } }

end Nesting

end Parlance
