import Parlance.Nesting.Build
import Parlance.Proofs.Places

/-!
# Nesting does not depend on places

A token opens, closes and divides by its text. Where it stands is only kept, in leaves, in the
openers of bounds, and in what is reported. A hook may look at anything; one that makes the
same of a node wherever its tokens stand makes the whole building depend on texts and classes
alone. Definitions are such a hook: they are found by text, and their bodies are put in as they
are, with places of their own.
-/

namespace Parlance

variable {σ : Type}

/-! ## Hooks -/

/-- A name stands for the same wherever it is used. -/
theorem Definitions.resolve_unplaced {α : Type} (definitions : Definitions α) (name : String)
    (site : Token) :
    definitions.resolve name site.unplaced = (definitions.resolve name site).unplaced id := by
  by_cases defined : Dictionary.contains definitions name <;>
    simp [resolve, Reported.unplaced, defined, Problem.diagnose_unplaced]

/-- What a hook makes of a node, without places. -/
def Visit.unplaced (visit : Visit σ) : Visit σ :=
  { visit with
    node := visit.node.unplaced
    diagnostics := visit.diagnostics.map Diagnostic.unplaced }

namespace NodeHook

/-- The hook, with what it makes of a node freed of places. -/
def unplaced (hook : NodeHook σ) : NodeHook σ := fun node state => (hook node state).unplaced

/-- The hook makes the same of a node wherever its tokens stand. -/
def IgnoresPlaces (hook : NodeHook σ) : Prop :=
  ∀ node state, hook.unplaced node.unplaced state = hook.unplaced node state

/-- Names are found by their text, wherever they stand. A marked name without a definition stays and
is reported at its own token, wherever that is. -/
theorem expand_ignoresPlaces (definitions : Definitions Tree) (marker : Option String) :
    (expand definitions marker).IgnoresPlaces := by
  intro node state
  cases node with
  | branch name children =>
    simp [unplaced, expand, Visit.unplaced, Function.comp_def]
  | leaf token =>
    simp only [unplaced, expand, Tree.unplaced_leaf, Token.unplaced_value]
    cases definitions.find? token.value with
    | some body => rfl
    | none =>
      cases marker with
      | none => rfl
      | some marker =>
        by_cases marked : marker.toList.isPrefixOf token.value.toList
        · -- The marked name has a body, or stays and is reported.
          simp only [marked, if_true, Definitions.resolve_unplaced, Reported.unplaced, id]
          cases (definitions.resolve (String.ofList _) token).value <;> simp [Visit.unplaced]
        · simp [marked, Visit.unplaced]

end NodeHook

namespace Ledger

/-- A ledger without places. -/
def unplaced (ledger : Ledger σ) : Ledger σ :=
  { ledger with diagnostics := ledger.diagnostics.map Diagnostic.unplaced }

/-- A problem reported at a token without its place is the report of the problem without the
place. -/
theorem report_unplaced (ledger : Ledger σ) (problem : Problem) (token : Token) :
    ledger.unplaced.report (problem.diagnose token.unplaced) =
      (ledger.report (problem.diagnose token)).unplaced := by
  simp [report, unplaced, Problem.diagnose_unplaced]

variable {hook : NodeHook σ}

/-- A node is shown alike to a hook that does not look at places. -/
theorem visit_unplaced (ignores : hook.IgnoresPlaces) (ledger : Ledger σ) (node : Tree) :
    ledger.unplaced.visit hook.unplaced node.unplaced =
      Prod.map Tree.unplaced Ledger.unplaced (ledger.visit hook node) := by
  have made := ignores node ledger.state
  have state : ledger.unplaced.state = ledger.state := rfl
  simp only [visit, state, made]
  simp [NodeHook.unplaced, Visit.unplaced, unplaced]

end Ledger

/-! ## Bounds that are being filled -/

namespace Frame

/-- A bound that is being filled, without places. -/
def unplaced (frame : Frame) : Frame :=
  { frame with
    opener := frame.opener.map Token.unplaced
    finished := frame.finished.map Tree.unplaced
    current := frame.current.map (·.map Tree.unplaced) }

/-- The bound that is filled is not in the text, so it loses nothing when places are left out. -/
@[simp] theorem unplaced_bound (frame : Frame) : frame.unplaced.bound = frame.bound := rfl

/-- A bound begins the same way wherever its start stands. -/
@[simp] theorem start_unplaced (bound : Bound) (opener : Option Token) :
    start bound (opener.map Token.unplaced) = (start bound opener).unplaced := by
  cases element : bound.element <;> simp [start, unplaced, element]

/-- A child can lose its places before it is added or afterwards. -/
@[simp] theorem push_unplaced (frame : Frame) (child : Tree) :
    frame.unplaced.push child.unplaced = (frame.push child).unplaced := by
  cases current : frame.current <;> simp [push, unplaced, current]

/-- Whether there are contents does not depend on where they stand. -/
@[simp] theorem hasContents_unplaced (frame : Frame) :
    frame.unplaced.hasContents = frame.hasContents := by
  cases current : frame.current <;> simp [hasContents, unplaced, current]

/-- Whether a token divides the bound depends on its value alone. -/
@[simp] theorem isSplitBy_unplaced (frame : Frame) (value : String) :
    frame.unplaced.isSplitBy value = frame.isSplitBy value := by
  have inProgress : frame.unplaced.current.isSome = frame.current.isSome := by simp [unplaced]
  rw [isSplitBy, isSplitBy, inProgress, unplaced_bound]

/-- The branch of an element has the places of its contents and no others. -/
@[simp] theorem elementNode_unplaced (frame : Frame) (contents : List Tree) :
    frame.unplaced.elementNode (contents.map Tree.unplaced) =
      (frame.elementNode contents).unplaced := by
  simp [elementNode]

/-- The branch of the bound has the places of what it holds and no others. -/
@[simp] theorem node_unplaced (frame : Frame) : frame.unplaced.node = frame.node.unplaced := by
  simp [node, unplaced]

variable {hook : NodeHook σ} (ignores : hook.IgnoresPlaces)
include ignores

/-- An element can lose its places before it is finished or afterwards: the hook is shown it without
places, and makes the same of it. -/
theorem split_unplaced (frame : Frame) (ledger : Ledger σ) :
    frame.unplaced.split hook.unplaced ledger.unplaced =
      Prod.map Frame.unplaced Ledger.unplaced (frame.split hook ledger) := by
  cases current : frame.current with
  | none => simp [split, unplaced, current]
  | some contents =>
    have inProgress : frame.unplaced.current = some (contents.map Tree.unplaced) := by
      simp [unplaced, current]
    simp only [split, current, inProgress, elementNode_unplaced, Ledger.visit_unplaced ignores]
    simp [unplaced]

/-- A bound can lose its places before it is finished or afterwards, with the same branch and the
same reports without places. -/
theorem finish_unplaced (prune : Bool) (frame : Frame) (ledger : Ledger σ) :
    frame.unplaced.finish hook.unplaced prune ledger.unplaced =
      Prod.map Tree.unplaced Ledger.unplaced (frame.finish hook prune ledger) := by
  cases current : frame.current with
  | none =>
    have inProgress : frame.unplaced.current = none := by simp [unplaced, current]
    simp only [finish, current, inProgress, node_unplaced, Ledger.visit_unplaced ignores]
  | some contents =>
    have inProgress : frame.unplaced.current = some (contents.map Tree.unplaced) := by
      simp [unplaced, current]
    have finished : frame.unplaced.finished.isEmpty = frame.finished.isEmpty := by
      simp [unplaced]
    simp only [finish, current, inProgress, finished, List.isEmpty_map]
    split
    · rw [node_unplaced, Ledger.visit_unplaced ignores]
    · rw [elementNode_unplaced, Ledger.visit_unplaced ignores]
      have whole := node_unplaced
        { frame with
          finished := (ledger.visit hook (frame.elementNode contents)).1 :: frame.finished }
      exact (congrArg _ whole).trans (Ledger.visit_unplaced ignores _ _)

end Frame

/-! ## Building -/

namespace Building

/-- A tree that is being built, without places. -/
def unplaced (building : Building σ) : Building σ where
  top := building.top.unplaced
  outer := building.outer.map Frame.unplaced
  ledger := building.ledger.unplaced

variable (nesting : Nesting) {hook : NodeHook σ} (ignores : hook.IgnoresPlaces)
include ignores

/-- Bounds are closed alike. Places have no part in whether the bound has contents or in whether it
ends an element. -/
theorem close_unplaced (building : Building σ) :
    building.unplaced.close hook.unplaced = (building.close hook).unplaced := by
  obtain ⟨top, outer, ledger⟩ := building
  cases outer with
  | nil => rfl
  | cons parent outer =>
    simp only [close, unplaced, List.map_cons, Frame.finish_unplaced ignores, Prod.map,
      Frame.push_unplaced, Frame.hasContents_unplaced, Frame.unplaced_bound]
    split
    · simp [Frame.split_unplaced ignores]
    · rfl

/-- A token is taken in the same way wherever it stands. Its role is decided by values, and whatever
it does can lose its places before or afterwards. -/
theorem take_unplaced (building : Building σ) (token : Token) :
    building.unplaced.take nesting hook.unplaced token.unplaced =
      (building.take nesting hook token).unplaced := by
  unfold take
  simp only [Token.unplaced_value]
  cases nesting.opened? token.value with
  | some bound =>
    have opener := Frame.start_unplaced bound (some token)
    rw [Option.map_some] at opener
    simp [unplaced, opener]
  | none =>
    have inside : building.unplaced.outer.isEmpty = building.outer.isEmpty := by simp [unplaced]
    have top : building.unplaced.top = building.top.unplaced := rfl
    simp only [inside, top, Frame.unplaced_bound, Frame.isSplitBy_unplaced]
    split
    · exact close_unplaced ignores building
    · split
      · have divided := Frame.split_unplaced ignores building.top building.ledger
        simp [unplaced, divided]
      · cases nesting.closed? token.value with
        | some bound => simp [unplaced, Ledger.report_unplaced]
        | none =>
          have leaf := Ledger.visit_unplaced ignores building.ledger (.leaf token)
          rw [Tree.unplaced_leaf] at leaf
          simp [unplaced, leaf]

/-- All tokens are taken in the same way wherever they stand. -/
theorem takes_unplaced (tokens : List Token) (building : Building σ) :
    (tokens.map Token.unplaced).foldl (take nesting hook.unplaced) building.unplaced =
      (tokens.foldl (take nesting hook) building).unplaced := by
  induction tokens generalizing building with
  | nil => rfl
  | cons token tokens inductionHypothesis =>
    rw [List.map_cons, List.foldl_cons, take_unplaced nesting ignores, inductionHypothesis,
      List.foldl_cons]

/-- What is still open at the end is closed and reported alike. By induction over the frames around,
each of which is reported at its opener. -/
theorem finish_unplaced (top : Frame) (outer : List Frame) (ledger : Ledger σ) :
    finish hook.unplaced top.unplaced (outer.map Frame.unplaced) ledger.unplaced =
      Prod.map Tree.unplaced Ledger.unplaced (finish hook top outer ledger) := by
  induction outer generalizing top ledger with
  | nil => exact Frame.finish_unplaced ignores true top ledger
  | cons parent outer inductionHypothesis =>
    rw [List.map_cons, finish, finish]
    cases opener : top.opener with
    | none =>
      have unopened : top.unplaced.opener = none := by simp [Frame.unplaced, opener]
      simp only [unopened, Frame.finish_unplaced ignores, Prod.map, Frame.push_unplaced]
      exact inductionHypothesis _ _
    | some token =>
      have opened : top.unplaced.opener = some token.unplaced := by
        simp [Frame.unplaced, opener]
      simp only [opened, Frame.unplaced_bound, Ledger.report_unplaced,
        Frame.finish_unplaced ignores, Prod.map, Frame.push_unplaced]
      exact inductionHypothesis _ _

end Building

/-- The tree that is built, and what is reported, depend on the texts and classes of the
tokens alone, as long as the hook does not look at places. -/
theorem Nesting.buildWith_unplaced (nesting : Nesting) {hook : NodeHook σ}
    (ignores : hook.IgnoresPlaces) (state : σ) (tokens : List Token) :
    (nesting.buildWith hook.unplaced state (tokens.map Token.unplaced)).toReported =
      (nesting.buildWith hook state tokens).toReported.unplaced Tree.unplaced := by
  have root := Frame.start_unplaced nesting.root none
  rw [Option.map_none] at root
  have begun : Building.unplaced
        { top := .start nesting.root none, outer := [], ledger := { state } } =
      { top := .start nesting.root none, outer := [], ledger := { state } } := by
    simp [Building.unplaced, ← root, Ledger.unplaced]
  have filled := Building.takes_unplaced nesting ignores tokens
    { top := .start nesting.root none, outer := [], ledger := { state } }
  rw [begun] at filled
  unfold Nesting.buildWith
  simp only [filled, Building.unplaced, Building.finish_unplaced ignores]
  rfl

/-- Tokens that read alike are built into trees that differ in places only, with the same
reports. -/
theorem Nesting.build_unplaced_eq (nesting : Nesting) {first second : List Token}
    (same : List.Forall₂ Token.ReadsAs first second) :
    (nesting.build first).unplaced Tree.unplaced =
      (nesting.build second).unplaced Tree.unplaced := by
  have ignores := NodeHook.expand_ignoresPlaces nesting.definitions none
  rw [Nesting.build, Nesting.build, ← nesting.buildWith_unplaced ignores,
    ← nesting.buildWith_unplaced ignores, map_unplaced_eq same]

end Parlance
