import Parlance.Proofs.Nesting.Step
import Parlance.Proofs.Tree.Walks

/-!
# Building in place

The branches that are being filled can be kept as trees and filled where they are. Then every
child that is put in, and every look at the children of a node, asks for a branch and fails on a
leaf. A hook may put any tree in the place of any node, also a leaf in the place of an element
or of a bound; still, no access fails, whatever the bounds, the hook and the tokens are, and the
outcome is the tree, the reports and the state that building gives.

The reason is an order: a node is filled before the hook sees it, and never afterwards. What the
hook makes of an element or a bound is only put into the branch around it. So the trees that are
asked for their children are those of the bounds still open and of their elements in progress,
which no hook has seen, and these are branches: `Frame.inPlace` is the frame with them.
-/

namespace Parlance

variable {σ : Type}

namespace InPlace

/-- A bound that is being filled, with its branch so far and that of the element in progress,
which is absent without an element level. -/
structure Frame where
  bound : Bound
  opener : Option Token
  node : Tree
  element : Option Tree

namespace Frame

/-- A bound without contents. -/
def start (bound : Bound) (opener : Option Token) : Frame :=
  { bound, opener, node := .branch bound.name []
    element := bound.element.map fun name => .branch name [] }

/-- Put a tree behind what is there. -/
def push (frame : Frame) (child : Tree) : Except Tree.Misuse Frame :=
  match frame.element with
  | some element => do
    let element ← element.push child
    return { frame with element := some element }
  | none => do
    let node ← frame.node.push child
    return { frame with node }

/-- Whether the element in progress, or the bound itself without an element level, has
contents. -/
def hasContents (frame : Frame) : Except Tree.Misuse Bool :=
  match frame.element with
  | some element => return !element.isChildless
  | none => do
    let children ← frame.node.branchChildren
    return !children.isEmpty

/-- Whether the given token value divides the elements of the bound. -/
def isSplitBy (frame : Frame) (value : String) : Bool :=
  frame.element.isSome && frame.bound.split = some value

/-- Finish the element in progress and begin another one. -/
def split (hook : NodeHook σ) (frame : Frame) (ledger : Ledger σ) :
    Except Tree.Misuse (Frame × Ledger σ) :=
  match frame.element with
  | none => return (frame, ledger)
  | some element => do
    let (finished, ledger) := ledger.visit hook element
    let node ← frame.node.push finished
    return ({ frame with node, element := some (.branch (frame.bound.element.getD "") []) }, ledger)

/-- Whether the element in progress is left out: with `prune` set, when it is empty and not
the only one. -/
def leavesOut (prune : Bool) (frame : Frame) (element : Tree) : Except Tree.Misuse Bool :=
  if prune && element.isChildless then do
    let children ← frame.node.branchChildren
    return !children.isEmpty
  else return false

/-- Finish the bound. -/
def finish (hook : NodeHook σ) (prune : Bool) (frame : Frame) (ledger : Ledger σ) :
    Except Tree.Misuse (Tree × Ledger σ) :=
  match frame.element with
  | none => return ledger.visit hook frame.node
  | some element => do
    if ← frame.leavesOut prune element then return ledger.visit hook frame.node
    else
      let (element, ledger) := ledger.visit hook element
      let node ← frame.node.push element
      return ledger.visit hook node

end Frame

/-- A tree that is being built: the innermost open bound, and those around it from the inside
out, the root last. -/
structure Building (σ : Type) where
  top : Frame
  outer : List Frame
  ledger : Ledger σ

namespace Building

/-- Close the innermost open bound and put it into the one around it. -/
def close (hook : NodeHook σ) (building : Building σ) : Except Tree.Misuse (Building σ) :=
  match building.outer with
  | [] => return building
  | parent :: outer => do
    let filled ← building.top.hasContents
    let (node, ledger) ← building.top.finish hook false building.ledger
    let parent ← parent.push node
    if filled && parent.bound.endIsParentSplit then
      let (parent, ledger) ← parent.split hook ledger
      return { top := parent, outer, ledger }
    else return { top := parent, outer, ledger }

/-- Take one token. -/
def take (nesting : Nesting) (hook : NodeHook σ) (building : Building σ) (token : Token) :
    Except Tree.Misuse (Building σ) :=
  match nesting.opened? token.value with
  | some bound => return { building with
      top := .start bound (some token), outer := building.top :: building.outer }
  | none =>
    if !building.outer.isEmpty && building.top.bound.closing = token.value then
      building.close hook
    else if building.top.isSplitBy token.value then do
      let (top, ledger) ← building.top.split hook building.ledger
      return { building with top, ledger }
    else match nesting.closed? token.value with
      | some bound =>
        let problem := Problem.mismatchedBounds bound.start token.value
        return { building with ledger := building.ledger.report (problem.diagnose token) }
      | none => do
        let (leaf, ledger) := building.ledger.visit hook (.leaf token)
        let top ← building.top.push leaf
        return { building with top, ledger }

/-- Close what is still open, innermost first, and finish the root. -/
def finish (hook : NodeHook σ) (top : Frame) (outer : List Frame) (ledger : Ledger σ) :
    Except Tree.Misuse (Tree × Ledger σ) :=
  match outer with
  | [] => top.finish hook true ledger
  | parent :: outer => do
    let ledger := match top.opener with
      | some opener =>
        ledger.report ((Problem.incompleteBound top.bound.start top.bound.closing).diagnose opener)
      | none => ledger
    let (node, ledger) ← top.finish hook false ledger
    let parent ← parent.push node
    finish hook parent outer ledger

end Building

end InPlace

/-- Build a tree from tokens in place, showing every node to `hook`. -/
def Nesting.buildInPlace (nesting : Nesting) (hook : NodeHook σ) (state : σ)
    (tokens : List Token) : Except Tree.Misuse (Built σ) := do
  let begun : InPlace.Building σ :=
    { top := .start nesting.root none, outer := [], ledger := { state } }
  let filled ← tokens.foldlM (InPlace.Building.take nesting hook) begun
  let (tree, ledger) ← InPlace.Building.finish hook filled.top filled.outer filled.ledger
  return { value := tree, diagnostics := ledger.diagnostics, state := ledger.state }

/-! ## No access fails -/

namespace Frame

/-- The frame with its branches as the trees they are so far. -/
def inPlace (frame : Frame) : InPlace.Frame where
  bound := frame.bound
  opener := frame.opener
  node := frame.node
  element := frame.current.map frame.elementNode

/-- The frame in place fills the same bound. -/
@[simp] theorem inPlace_bound (frame : Frame) : frame.inPlace.bound = frame.bound := rfl

/-- Both kinds of frames begin alike, with an empty branch for the bound and one for its first
element. -/
theorem start_inPlace (bound : Bound) (opener : Option Token) :
    InPlace.Frame.start bound opener = (start bound opener).inPlace := by
  cases element : bound.element <;>
    simp [InPlace.Frame.start, inPlace, start, node, elementNode, element]

/-- The children of both branches in place can be reached, since both are branches, and the new one
is put behind them. -/
theorem push_inPlace (frame : Frame) (child : Tree) :
    frame.inPlace.push child = .ok (frame.push child).inPlace := by
  cases current : frame.current <;>
    simp [InPlace.Frame.push, push, inPlace, current, Tree.push, node, elementNode]

/-- Asking a frame in place for contents does not fail, and the answer is that of the frame. -/
theorem hasContents_inPlace (frame : Frame) :
    frame.inPlace.hasContents = .ok frame.hasContents := by
  cases current : frame.current <;>
    simp [InPlace.Frame.hasContents, hasContents, inPlace, current, Tree.branchChildren, node,
      elementNode, Tree.isChildless, Tree.children]

/-- Both kinds of frames are divided by the same token values. -/
theorem isSplitBy_inPlace (frame : Frame) (value : String) :
    frame.inPlace.isSplitBy value = frame.isSplitBy value := by
  have inProgress : frame.inPlace.element.isSome = frame.current.isSome := by simp [inPlace]
  rw [InPlace.Frame.isSplitBy, inProgress]
  rfl

/-- What the hook makes of an element is put into the branch of the bound, and the next element
is a branch again. -/
theorem split_inPlace (hook : NodeHook σ) (frame : Frame) (ledger : Ledger σ) :
    frame.inPlace.split hook ledger =
      .ok ((frame.split hook ledger).1.inPlace, (frame.split hook ledger).2) := by
  cases current : frame.current <;>
    simp [InPlace.Frame.split, split, inPlace, current, Tree.push, node, elementNode]

/-- Whether the last element is left out can always be told in place, since the branch of the bound
has children to be counted. -/
theorem leavesOut_inPlace (prune : Bool) (frame : Frame) (contents : List Tree) :
    frame.inPlace.leavesOut prune (frame.elementNode contents) =
      .ok (prune && contents.isEmpty && !frame.finished.isEmpty) := by
  have childless : (frame.elementNode contents).isChildless = contents.isEmpty := by
    simp [elementNode, Tree.isChildless, Tree.children]
  have children : frame.inPlace.node.branchChildren = .ok frame.finished.reverse := rfl
  rw [InPlace.Frame.leavesOut, childless, children]
  cases prune && contents.isEmpty <;> simp

/-- The branch of the bound is shown to the hook when it is full, and nothing is put into what
the hook makes of it. -/
theorem finish_inPlace (hook : NodeHook σ) (prune : Bool) (frame : Frame) (ledger : Ledger σ) :
    frame.inPlace.finish hook prune ledger = .ok (frame.finish hook prune ledger) := by
  cases current : frame.current with
  | none => simp [InPlace.Frame.finish, finish, inPlace, current]
  | some contents =>
    have element : frame.inPlace.element = some (frame.elementNode contents) := by
      simp [inPlace, current]
    simp only [InPlace.Frame.finish, finish, element, current, leavesOut_inPlace,
      Tree.Misuse.ok_bind]
    split
    · rfl
    · simp [inPlace, Tree.push, node]

end Frame

namespace Building

/-- The building with the branches of its frames as the trees they are so far. -/
def inPlace (building : Building σ) : InPlace.Building σ where
  top := building.top.inPlace
  outer := building.outer.map Frame.inPlace
  ledger := building.ledger

/-- Closing a bound in place does not fail, and leads to what closing it leads to. The branches of
the bound inside and of the one around it are where they are expected. -/
theorem close_inPlace (hook : NodeHook σ) (building : Building σ) :
    building.inPlace.close hook = .ok (building.close hook).inPlace := by
  obtain ⟨top, outer, ledger⟩ := building
  cases outer with
  | nil => rfl
  | cons parent outer =>
    simp only [InPlace.Building.close, close, inPlace, List.map_cons, Frame.hasContents_inPlace,
      Frame.finish_inPlace, Frame.push_inPlace, Frame.split_inPlace, Frame.inPlace_bound,
      Frame.push_bound, Tree.Misuse.ok_bind]
    split <;> rfl

/-- A token is taken without any access that fails. What a token does is decided by the bounds
alone, which are the same on both sides, and none of the four things that it can do fails. -/
theorem take_inPlace (nesting : Nesting) (hook : NodeHook σ) (building : Building σ)
    (token : Token) :
    building.inPlace.take nesting hook token = .ok (building.take nesting hook token).inPlace := by
  have closes : (!building.inPlace.outer.isEmpty &&
        decide (building.inPlace.top.bound.closing = token.value)) =
      (!building.outer.isEmpty && decide (building.top.bound.closing = token.value)) := by
    rw [inPlace, List.isEmpty_map]
    rfl
  have divides : building.inPlace.top.isSplitBy token.value =
      building.top.isSplitBy token.value := building.top.isSplitBy_inPlace token.value
  unfold InPlace.Building.take take
  rw [closes, divides]
  cases nesting.opened? token.value with
  | some bound => simp [inPlace, Frame.start_inPlace]
  | none =>
    simp only
    split
    · exact building.close_inPlace hook
    · split
      · simp [inPlace, Frame.split_inPlace]
      · cases nesting.closed? token.value with
        | some bound => rfl
        | none => simp [inPlace, Frame.push_inPlace]

/-- No token makes building in place fail. By induction over the tokens, the buildings correspond at
every point of the text. -/
theorem foldlM_take_inPlace (nesting : Nesting) (hook : NodeHook σ) (tokens : List Token)
    (building : Building σ) :
    tokens.foldlM (InPlace.Building.take nesting hook) building.inPlace =
      .ok (tokens.foldl (take nesting hook) building).inPlace := by
  induction tokens generalizing building with
  | nil => rfl
  | cons token tokens inductionHypothesis =>
    rw [List.foldlM_cons, take_inPlace, Tree.Misuse.ok_bind, inductionHypothesis, List.foldl_cons]

/-- What is still open at the end is closed without any access that fails. By induction over the
frames around, each of which takes a branch. -/
theorem finish_inPlace (hook : NodeHook σ) (top : Frame) (outer : List Frame)
    (ledger : Ledger σ) :
    InPlace.Building.finish hook top.inPlace (outer.map Frame.inPlace) ledger =
      .ok (finish hook top outer ledger) := by
  induction outer generalizing top ledger with
  | nil => exact Frame.finish_inPlace hook true top ledger
  | cons parent outer inductionHypothesis =>
    have reported : top.inPlace.opener = top.opener := rfl
    rw [List.map_cons, InPlace.Building.finish, finish, Frame.finish_inPlace]
    simp only [Tree.Misuse.ok_bind, Frame.push_inPlace, inductionHypothesis]
    rfl

end Building

namespace Nesting

/-- Whatever the bounds, the hook and the tokens are, building in place asks no leaf for children:
it comes to its end, with the outcome of building. -/
theorem buildInPlace_eq_ok (nesting : Nesting) (hook : NodeHook σ) (state : σ)
    (tokens : List Token) :
    nesting.buildInPlace hook state tokens = .ok (nesting.buildWith hook state tokens) := by
  have begun : ({ top := .start nesting.root none, outer := [], ledger := { state } } :
        InPlace.Building σ) =
      Building.inPlace { top := .start nesting.root none, outer := [], ledger := { state } } := by
    simp [Building.inPlace, Frame.start_inPlace]
  simp only [buildInPlace, begun, Building.foldlM_take_inPlace, Tree.Misuse.ok_bind]
  simp only [Building.inPlace, Building.finish_inPlace, Tree.Misuse.ok_bind]
  rfl

example :
    let list : Bound :=
      { name := "list", start := "[", closing := "]", element := some "item", split := some "," }
    let nesting : Nesting :=
      { root := { name := "root", element := some "line", endIsParentSplit := true }
        bounds := Dictionary.empty.insert "[" list }
    let stump : NodeHook Nat := fun _ seen => { node := .leaf {}, state := seen + 1 }
    let tokens := ["[", "a", ",", "]", "b"].map fun value => ({ value } : Token)
    (nesting.buildInPlace stump 0 tokens).map (fun built => (built.value, built.state)) =
      .ok (.leaf {}, 7) := rfl

end Nesting

end Parlance
