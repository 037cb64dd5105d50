import Parlance.Nesting.Basic

/-!
# Building trees from tokens

Tokens are taken in turn. A start token opens a bound; the closing token of the
innermost open bound closes it; the separator of the innermost open bound ends an
element; a closing token of any other bound is reported and dropped; anything else
becomes a leaf. At the end, bounds still open are reported and closed, innermost
first. The last element of the root is left out when it is empty and not the only
one.

A hook sees every leaf as it is put in and every element and bound as it is
finished, and may put another tree in its place. It carries a state of its own.
The branches that are being filled are never shown to it, so no hook can disturb
the building.
-/

namespace Parlance

/-- What a hook makes of a node: the tree to be put in, its next state, and what it
has to report. -/
structure Visit (σ : Type) where
  node : Tree
  state : σ
  diagnostics : List Diagnostic := []

/-- What is done with every node of a tree while it is built. -/
abbrev NodeHook (σ : Type) := Tree → σ → Visit σ

namespace NodeHook

/-- The hook that leaves every node as it is. -/
def none : NodeHook Unit := fun node state => { node, state }

/-- The hook that leaves every node as it is and remembers it, newest first. -/
def recording : NodeHook (List Tree) := fun node seen => { node, state := node :: seen }

/-- The hook that puts definitions in the place of their names. A name may be given
by a leaf, or, where there is a marker, by what stands behind the marker in a leaf;
a marked name without definition is reported and stays. -/
def expand (definitions : Definitions Tree) (marker : Option String) : NodeHook Unit :=
  fun node state =>
    match node with
    | .branch .. => { node, state }
    | .leaf token =>
      match definitions.find? token.value with
      | some body => { node := body, state }
      | Option.none =>
        match marker with
        | Option.none => { node, state }
        | some marker =>
          if marker.toList.isPrefixOf token.value.toList then
            let name := String.ofList (token.value.toList.drop marker.length)
            let resolved := Definitions.resolve definitions name token
            { node := resolved.value.getD node, state, diagnostics := resolved.diagnostics }
          else { node, state }

/-- The hook that puts other trees in the place of branches with certain names, with
an error at the first token of what stood there. -/
def replacing (replacements : Dictionary Tree) : NodeHook Unit := fun node state =>
  match node with
  | .leaf _ => { node, state }
  | .branch name _ =>
    match replacements.find? name with
    | Option.none => { node, state }
    | some replacement =>
      { node := replacement, state
        diagnostics := [Problem.expectedExpression.diagnose (node.firstToken?.getD {})] }

end NodeHook

/-- What building has left behind so far: the state of the hook and what was
reported. -/
structure Ledger (σ : Type) where
  state : σ
  diagnostics : List Diagnostic := []

namespace Ledger

variable {σ : Type}

/-- Add a diagnostic. -/
def report (ledger : Ledger σ) (diagnostic : Diagnostic) : Ledger σ :=
  { ledger with diagnostics := ledger.diagnostics ++ [diagnostic] }

/-- Show a node to the hook. -/
def visit (ledger : Ledger σ) (hook : NodeHook σ) (node : Tree) : Tree × Ledger σ :=
  let visit := hook node ledger.state
  (visit.node, { state := visit.state, diagnostics := ledger.diagnostics ++ visit.diagnostics })

end Ledger

/-- A bound that is being filled. -/
structure Frame where
  bound : Bound
  /-- The token that opened it, absent for the root. -/
  opener : Option Token
  /-- What its branch holds so far, newest first. -/
  finished : List Tree := []
  /-- The contents of the element in progress, newest first; absent without an
  element level. -/
  current : Option (List Tree)

namespace Frame

/-- A bound without contents. -/
def start (bound : Bound) (opener : Option Token) : Frame :=
  { bound, opener, current := bound.element.map fun _ => [] }

/-- Put a tree behind what is there. -/
def push (frame : Frame) (child : Tree) : Frame :=
  match frame.current with
  | some contents => { frame with current := some (child :: contents) }
  | none => { frame with finished := child :: frame.finished }

/-- Whether the element in progress, or the bound itself without an element level,
has contents. -/
def hasContents (frame : Frame) : Bool :=
  match frame.current with
  | some contents => !contents.isEmpty
  | none => !frame.finished.isEmpty

/-- The branch of an element with the given contents, newest first. -/
def elementNode (frame : Frame) (contents : List Tree) : Tree :=
  .branch (frame.bound.element.getD "") contents.reverse

/-- The branch of the bound with what it holds so far. -/
def node (frame : Frame) : Tree := .branch frame.bound.name frame.finished.reverse

/-- Whether the given token value divides the elements of the bound. -/
def isSplitBy (frame : Frame) (value : String) : Bool :=
  frame.current.isSome && frame.bound.split = some value

variable {σ : Type}

/-- Finish the element in progress and begin another one. -/
def split (hook : NodeHook σ) (frame : Frame) (ledger : Ledger σ) : Frame × Ledger σ :=
  match frame.current with
  | none => (frame, ledger)
  | some contents =>
    let (element, ledger) := ledger.visit hook (frame.elementNode contents)
    ({ frame with finished := element :: frame.finished, current := some [] }, ledger)

/-- Finish the bound. With `prune` set, the element in progress is left out when it
is empty and not the only one. -/
def finish (hook : NodeHook σ) (prune : Bool) (frame : Frame) (ledger : Ledger σ) :
    Tree × Ledger σ :=
  match frame.current with
  | none => ledger.visit hook frame.node
  | some contents =>
    if prune && contents.isEmpty && !frame.finished.isEmpty then ledger.visit hook frame.node
    else
      let (element, ledger) := ledger.visit hook (frame.elementNode contents)
      ledger.visit hook { frame with finished := element :: frame.finished }.node

end Frame

/-- A tree that is being built: the innermost open bound, and those around it from
the inside out, the root last. -/
structure Building (σ : Type) where
  top : Frame
  outer : List Frame
  ledger : Ledger σ

namespace Building

variable {σ : Type}

/-- Close the innermost open bound and put it into the one around it. Contents of a
bound divide the elements around it where the flag of those says so. -/
def close (hook : NodeHook σ) (building : Building σ) : Building σ :=
  match building.outer with
  | [] => building
  | parent :: outer =>
    let (node, ledger) := building.top.finish hook false building.ledger
    let parent := parent.push node
    if building.top.hasContents && parent.bound.endIsParentSplit then
      let (parent, ledger) := parent.split hook ledger
      { top := parent, outer, ledger }
    else { top := parent, outer, ledger }

/-- Take one token. -/
def take (nesting : Nesting) (hook : NodeHook σ) (building : Building σ) (token : Token) :
    Building σ :=
  match nesting.opened? token.value with
  | some bound =>
    { building with top := .start bound (some token), outer := building.top :: building.outer }
  | none =>
    if !building.outer.isEmpty && building.top.bound.closing = token.value then
      building.close hook
    else if building.top.isSplitBy token.value then
      let (top, ledger) := building.top.split hook building.ledger
      { building with top, ledger }
    else match nesting.closed? token.value with
      | some bound =>
        let problem := Problem.mismatchedBounds bound.start token.value
        { building with ledger := building.ledger.report (problem.diagnose token) }
      | none =>
        let (leaf, ledger) := building.ledger.visit hook (.leaf token)
        { building with top := building.top.push leaf, ledger }

/-- Close what is still open, innermost first, and finish the root. -/
def finish (hook : NodeHook σ) (top : Frame) (outer : List Frame) (ledger : Ledger σ) :
    Tree × Ledger σ :=
  match outer with
  | [] => top.finish hook true ledger
  | parent :: outer =>
    let ledger := match top.opener with
      | some opener =>
        ledger.report ((Problem.incompleteBound top.bound.start top.bound.closing).diagnose opener)
      | none => ledger
    let (node, ledger) := top.finish hook false ledger
    finish hook (parent.push node) outer ledger

end Building

/-- The result of building: the tree, what was reported, and the last state of the
hook. -/
structure Built (σ : Type) extends Reported Tree where
  state : σ

namespace Nesting

/-- Build a tree from tokens, showing every node to `hook`. -/
def buildWith {σ : Type} (nesting : Nesting) (hook : NodeHook σ) (state : σ)
    (tokens : List Token) : Built σ :=
  let begun : Building σ :=
    { top := .start nesting.root none, outer := [], ledger := { state } }
  let filled := tokens.foldl (Building.take nesting hook) begun
  let (tree, ledger) := Building.finish hook filled.top filled.outer filled.ledger
  { value := tree, diagnostics := ledger.diagnostics, state := ledger.state }

/-- Build a tree from tokens, with definitions put in the place of their names. -/
def build (nesting : Nesting) (tokens : List Token) : Reported Tree :=
  (nesting.buildWith (.expand nesting.definitions none) () tokens).toReported

end Nesting

end Parlance
