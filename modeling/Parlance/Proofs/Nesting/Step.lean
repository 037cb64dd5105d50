import Parlance.Nesting.Build

/-!
# One token at a time

A building takes each token in one of five ways: it opens a bound, closes the
innermost one, divides its elements, is reported, or becomes a leaf. This file says
when each of them happens and what the building is afterwards. A hook that leaves every
node as it is leaves the ledger as it is too, so for it every step but a report is a
change of frames.
-/

namespace Parlance

/-- The hook that does nothing gives every node back and leaves the ledger alone. -/
@[simp] theorem Ledger.visit_none (ledger : Ledger Unit) (node : Tree) :
    ledger.visit .none node = (node, ledger) := by
  simp [Ledger.visit, NodeHook.none]

namespace Frame

/-- The frame with the element in progress finished and another one begun. -/
def next (frame : Frame) : Frame :=
  match frame.current with
  | none => frame
  | some contents =>
    { frame with finished := frame.elementNode contents :: frame.finished, current := some [] }

/-- The branch of the bound when it is finished. -/
def branch (prune : Bool) (frame : Frame) : Tree :=
  match frame.current with
  | none => frame.node
  | some contents =>
    if prune && contents.isEmpty && !frame.finished.isEmpty then frame.node
    else frame.next.node

/-- With the hook that does nothing, an element is finished without a trace in the ledger. -/
@[simp] theorem split_none (frame : Frame) (ledger : Ledger Unit) :
    frame.split .none ledger = (frame.next, ledger) := by
  cases current : frame.current <;> simp [split, next, current]

/-- With the hook that does nothing, a bound is finished as its branch without a trace in the
ledger. -/
@[simp] theorem finish_none (prune : Bool) (frame : Frame) (ledger : Ledger Unit) :
    frame.finish .none prune ledger = (frame.branch prune, ledger) := by
  cases current : frame.current with
  | none => simp [finish, branch, current]
  | some contents =>
    simp only [finish, branch, current, Ledger.visit_none]
    split
    · rfl
    · simp [next, node, current]

/-- Adding a child does not change the bound that is filled. -/
@[simp] theorem push_bound (frame : Frame) (child : Tree) :
    (frame.push child).bound = frame.bound := by
  cases current : frame.current <;> simp [push, current]

/-- Adding a child does not change the token that opened the bound. -/
@[simp] theorem push_opener (frame : Frame) (child : Tree) :
    (frame.push child).opener = frame.opener := by
  cases current : frame.current <;> simp [push, current]

/-- Finishing an element does not change the bound that is filled. -/
@[simp] theorem next_bound (frame : Frame) : frame.next.bound = frame.bound := by
  cases current : frame.current <;> simp [next, current]

/-- Adding a child neither begins nor ends an element level. -/
@[simp] theorem push_current_isSome (frame : Frame) (child : Tree) :
    (frame.push child).current.isSome = frame.current.isSome := by
  cases current : frame.current <;> simp [push, current]

/-- Behind a finished element another one is in progress, where there are elements at all. -/
@[simp] theorem next_current_isSome (frame : Frame) :
    frame.next.current.isSome = frame.current.isSome := by
  cases current : frame.current <;> simp [next, current]

end Frame

namespace Building

variable {σ : Type} {nesting : Nesting} {hook : NodeHook σ} {building : Building σ} {token : Token}

/-- The start of a bound opens it. It does so before anything else is asked, even if the token also
closes the innermost bound or divides its elements. -/
theorem take_start {bound : Bound} (opens : nesting.opened? token.value = some bound) :
    building.take nesting hook token =
      { building with
        top := .start bound (some token), outer := building.top :: building.outer } := by
  simp [take, opens]

/-- The closing token of the innermost bound closes it. -/
theorem take_closing (unopened : nesting.opened? token.value = none)
    (inside : building.outer ≠ []) (closes : building.top.bound.closing = token.value) :
    building.take nesting hook token = building.close hook := by
  simp [take, unopened, inside, closes]

/-- The separator of the innermost bound ends the element in progress. It does so only if it neither
opens a bound nor closes the innermost one. -/
theorem take_separator (unopened : nesting.opened? token.value = none)
    (stays : building.outer = [] ∨ building.top.bound.closing ≠ token.value)
    (divides : building.top.isSplitBy token.value) :
    building.take nesting hook token =
      { building with
        top := (building.top.split hook building.ledger).1
        ledger := (building.top.split hook building.ledger).2 } := by
  rcases stays with outermost | unclosed
  · simp [take, unopened, outermost, divides]
  · simp [take, unopened, unclosed, divides]

/-- The closing token of a bound other than the innermost one is reported and dropped. -/
theorem take_stray {bound : Bound} (unopened : nesting.opened? token.value = none)
    (stays : building.outer = [] ∨ building.top.bound.closing ≠ token.value)
    (undivided : ¬ building.top.isSplitBy token.value)
    (closes : nesting.closed? token.value = some bound) :
    building.take nesting hook token =
      { building with
        ledger := building.ledger.report
          ((Problem.mismatchedBounds bound.start token.value).diagnose token) } := by
  rcases stays with outermost | elsewhere
  · simp [take, unopened, outermost, undivided, closes]
  · simp [take, unopened, elsewhere, undivided, closes]

/-- A token that is no start, no closing token and not the separator of the innermost bound becomes
a leaf. The hook sees it first, and the frame gets what the hook makes of it. -/
theorem take_leaf (unopened : nesting.opened? token.value = none)
    (stays : building.outer = [] ∨ building.top.bound.closing ≠ token.value)
    (undivided : ¬ building.top.isSplitBy token.value)
    (unclosed : nesting.closed? token.value = none) :
    building.take nesting hook token =
      { building with
        top := building.top.push (building.ledger.visit hook (.leaf token)).1
        ledger := (building.ledger.visit hook (.leaf token)).2 } := by
  rcases stays with outermost | elsewhere
  · simp [take, unopened, outermost, undivided, unclosed]
  · simp [take, unopened, elsewhere, undivided, unclosed]

/-- A bound closed inside a bound without the flag becomes its newest child. -/
theorem close_none {building : Building Unit} {parent : Frame} {outer : List Frame}
    (around : building.outer = parent :: outer)
    (unflagged : parent.bound.endIsParentSplit = false) :
    building.close .none =
      { building with top := parent.push (building.top.branch false), outer } := by
  simp [close, around, unflagged]

end Building

end Parlance
