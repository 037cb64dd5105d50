import Parlance.Proofs.Nesting.Elements

/-!
# Definitions do not disturb the building

A tree that is built with definitions in the place of their names is the tree that is built
without any, with the definitions put in afterwards. What a definition holds is put in as it
is: its tokens open, close and divide nothing, it counts as one child whatever it is, and no
name in it is looked up again. So the same brackets are reported as well.

A building with definitions is compared with the one without, token by token. Its frames are
those of the other one with definitions in them, since the tests that decide about a token
only look at bounds and at whether there are children, and every child is exchanged for
exactly one tree. Elements and bounds are branches, which the hook leaves alone.
-/

namespace Parlance

variable {σ : Type}

namespace Tree

mutual

/-- The tree with `body token` in the place of every leaf. What is put in is not looked at
again. -/
def withBodies (body : Token → Tree) : Tree → Tree
  | .leaf token => body token
  | .branch name children => .branch name (withBodiesAll body children)

/-- Several trees with others in the place of their leaves. -/
def withBodiesAll (body : Token → Tree) : List Tree → List Tree
  | [] => []
  | tree :: trees => tree.withBodies body :: withBodiesAll body trees

end

/-- Going through several trees is going into each of them, so that facts about lists apply. -/
theorem withBodiesAll_eq_map (body : Token → Tree) (trees : List Tree) :
    withBodiesAll body trees = trees.map (withBodies body) := by
  induction trees with
  | nil => rfl
  | cons tree trees inductionHypothesis => rw [withBodiesAll, inductionHypothesis, List.map_cons]

/-- A leaf is replaced by what is put in for its token, as a whole. -/
@[simp] theorem withBodies_leaf (body : Token → Tree) (token : Token) :
    (leaf token).withBodies body = body token := by rw [withBodies]

/-- A branch keeps its name, and what is put in goes into each of its children. -/
@[simp] theorem withBodies_branch (body : Token → Tree) (name : String) (children : List Tree) :
    (branch name children).withBodies body = branch name (children.map (withBodies body)) := by
  rw [withBodies, withBodiesAll_eq_map]

end Tree

/-! ## What a leaf stands for -/

namespace Definitions

/-- The definition for which a text stands: the one under the text, or else, where the text
begins with the marker, the one under what is behind the marker. -/
def standsFor? (definitions : Definitions Tree) (marker : Option String) (value : String) :
    Option Tree :=
  (definitions.find? value).or <| marker.bind fun mark =>
    if mark.toList.isPrefixOf value.toList then
      definitions.find? (String.ofList (value.toList.drop mark.length))
    else none

/-- What is put in the place of a leaf: the definition for which its text stands, or the leaf
itself. -/
def bodyOf (definitions : Definitions Tree) (marker : Option String) (token : Token) : Tree :=
  (definitions.standsFor? marker token.value).getD (.leaf token)

end Definitions

/-! ## Hooks that put trees in the place of leaves -/

/-- Whether the diagnostic is about a closing token that closed nothing, or about a bound
that was not closed. -/
def Diagnostic.isAboutBrackets (diagnostic : Diagnostic) : Bool :=
  diagnostic.id = (Problem.mismatchedBounds "" "").code ||
    diagnostic.id = (Problem.incompleteBound "" "").code

namespace NodeHook

/-- The hook puts `body token` in the place of every leaf and leaves branches as they are. It
reports nothing about brackets. -/
structure PutsIn (hook : NodeHook σ) (body : Token → Tree) : Prop where
  leaf : ∀ token state, (hook (.leaf token) state).node = body token
  branches : hook.KeepsBranches
  silent : ∀ node state, (hook node state).diagnostics.filter Diagnostic.isAboutBrackets = []

/-- Definitions are put in for the leaves that stand for them: for those that are a name, and for
those with a name behind the marker. -/
theorem expand_putsIn (definitions : Definitions Tree) (marker : Option String) :
    (expand definitions marker).PutsIn (definitions.bodyOf marker) where
  leaf token state := by
    simp only [expand, Definitions.bodyOf, Definitions.standsFor?]
    cases definitions.find? token.value with
    | some body => rfl
    | none =>
      cases marker with
      | none => rfl
      | some mark =>
        simp only [Option.none_or, Option.bind_some]
        split <;> rfl
  branches := expand_keepsBranches definitions marker
  silent node state := by
    cases node with
    | branch name children => rfl
    | leaf token =>
      simp only [expand]
      split
      · rfl
      · split
        · rfl
        · split
          · -- Only a marked name without definition is reported, under its own code.
            simp only [Definitions.resolve]
            split <;> rfl
          · rfl

end NodeHook

namespace Ledger

/-- The same was reported about brackets as in `plain`, where nothing else is reported. -/
def Agrees (plain : Ledger Unit) (ledger : Ledger σ) : Prop :=
  ledger.diagnostics.filter Diagnostic.isAboutBrackets = plain.diagnostics

variable {plain : Ledger Unit} {ledger : Ledger σ} {hook : NodeHook σ} {body : Token → Tree}

/-- A hook that puts in trees reports nothing about brackets, so showing it one more node leaves the
reports about brackets as they are. -/
theorem Agrees.visit (agrees : plain.Agrees ledger) (putsIn : hook.PutsIn body) (node : Tree) :
    plain.Agrees (ledger.visit hook node).2 := by
  rw [Agrees, Ledger.visit, List.filter_append, putsIn.silent, List.append_nil]
  exact agrees

/-- A report about brackets that is made on both sides keeps them in agreement. -/
theorem Agrees.report (agrees : plain.Agrees ledger) (diagnostic : Diagnostic)
    (brackets : diagnostic.isAboutBrackets) :
    (plain.report diagnostic).Agrees (ledger.report diagnostic) := by
  rw [Agrees, Ledger.report, List.filter_append, show _ = _ from agrees]
  simp [Ledger.report, brackets]

end Ledger

namespace Frame

/-- The frame with other trees in the place of leaves. -/
def withBodies (body : Token → Tree) (frame : Frame) : Frame :=
  { frame with
    finished := frame.finished.map (Tree.withBodies body)
    current := frame.current.map (·.map (Tree.withBodies body)) }

variable (body : Token → Tree) (frame : Frame)

/-- Putting trees in does not change the bound that is filled, so a token has the same role on both
sides. -/
@[simp] theorem withBodies_bound : (frame.withBodies body).bound = frame.bound := rfl

/-- Putting trees in does not change the token that opened the bound, so that it is reported as
before when the bound is never closed. -/
@[simp] theorem withBodies_opener : (frame.withBodies body).opener = frame.opener := rfl

/-- A bound that has just begun holds nothing into which a tree could be put. -/
theorem start_withBodies (bound : Bound) (opener : Option Token) :
    (start bound opener).withBodies body = start bound opener := by
  cases element : bound.element <;> simp [start, withBodies, element]

/-- Trees can be put in before a child is added or afterwards. -/
theorem push_withBodies (child : Tree) :
    (frame.withBodies body).push (child.withBodies body) = (frame.push child).withBodies body := by
  cases current : frame.current <;> simp [push, withBodies, current]

/-- Putting trees in for leaves neither fills nor empties a bound: every leaf is replaced by just
one tree. This is what makes a closing token end the same elements on both sides. -/
@[simp] theorem hasContents_withBodies :
    (frame.withBodies body).hasContents = frame.hasContents := by
  cases current : frame.current <;> simp [hasContents, withBodies, current]

/-- A bound is divided by the same token values when trees are put in. -/
@[simp] theorem isSplitBy_withBodies (value : String) :
    (frame.withBodies body).isSplitBy value = frame.isSplitBy value := by
  have inProgress : (frame.withBodies body).current.isSome = frame.current.isSome := by
    simp [withBodies]
  rw [isSplitBy, isSplitBy, inProgress, withBodies_bound]

variable {body} {hook : NodeHook σ} {plain : Ledger Unit} {ledger : Ledger σ}

/-- A branch whose children have been exchanged is shown to the hook, which leaves it as it
is. -/
theorem visit_elementNode_withBodies (putsIn : hook.PutsIn body) (contents : List Tree) :
    (ledger.visit hook ((frame.withBodies body).elementNode
      (contents.map (Tree.withBodies body)))).1 = (frame.elementNode contents).withBodies body := by
  rw [elementNode, Ledger.visit_branch putsIn.branches]
  simp [elementNode]

/-- Showing the branch of a bound to the hook changes nothing more: its leaves have been replaced
before, and the branch itself is kept. -/
theorem visit_node_withBodies (putsIn : hook.PutsIn body) (ledger : Ledger σ) :
    (ledger.visit hook (frame.withBodies body).node).1 = frame.node.withBodies body := by
  rw [node, Ledger.visit_branch putsIn.branches]
  simp [node, withBodies]

/-- An element ends alike with other trees in the place of its leaves. Its branch is shown to the
hook when the other trees are in it, and is kept. -/
theorem split_withBodies (putsIn : hook.PutsIn body) (agrees : plain.Agrees ledger) :
    ((frame.withBodies body).split hook ledger).1 = frame.next.withBodies body ∧
      plain.Agrees ((frame.withBodies body).split hook ledger).2 := by
  cases current : frame.current with
  | none => simpa [split, next, withBodies, current] using agrees
  | some contents =>
    have inProgress :
        (frame.withBodies body).current = some (contents.map (Tree.withBodies body)) := by
      simp [withBodies, current]
    simp only [split, inProgress, visit_elementNode_withBodies frame putsIn]
    refine ⟨?_, agrees.visit putsIn _⟩
    simp [next, withBodies, current]

/-- A bound ends alike with other trees in the place of its leaves. Whether an empty element is left
out does not change, since trees that are put in fill no element and empty none. -/
theorem finish_withBodies (putsIn : hook.PutsIn body) (prune : Bool)
    (agrees : plain.Agrees ledger) :
    ((frame.withBodies body).finish hook prune ledger).1 = (frame.branch prune).withBodies body ∧
      plain.Agrees ((frame.withBodies body).finish hook prune ledger).2 := by
  cases current : frame.current with
  | none =>
    have inProgress : (frame.withBodies body).current = none := by simp [withBodies, current]
    simp only [finish, branch, current, inProgress]
    exact ⟨visit_node_withBodies frame putsIn ledger, agrees.visit putsIn _⟩
  | some contents =>
    have inProgress :
        (frame.withBodies body).current = some (contents.map (Tree.withBodies body)) := by
      simp [withBodies, current]
    have finished : (frame.withBodies body).finished.isEmpty = frame.finished.isEmpty := by
      simp [withBodies]
    simp only [finish, branch, current, inProgress, finished, List.isEmpty_map,
      visit_elementNode_withBodies frame putsIn]
    split
    · exact ⟨visit_node_withBodies frame putsIn ledger, agrees.visit putsIn _⟩
    · have ended := visit_node_withBodies frame.next putsIn
        (ledger.visit hook ((frame.withBodies body).elementNode
          (contents.map (Tree.withBodies body)))).2
      refine ⟨?_, (agrees.visit putsIn _).visit putsIn _⟩
      simpa [next, node, withBodies, current] using ended

end Frame

namespace Building

/-- The building has the frames of `plain` with other trees in the place of leaves, and the
same was reported about brackets. -/
structure Follows (body : Token → Tree) (plain : Building Unit) (building : Building σ) :
    Prop where
  top : building.top = plain.top.withBodies body
  outer : building.outer = plain.outer.map (Frame.withBodies body)
  agrees : plain.ledger.Agrees building.ledger

variable {body : Token → Tree} {hook : NodeHook σ} {plain : Building Unit}
  {building : Building σ} (nesting : Nesting)

/-- A bound closes alike: whether it has contents does not depend on what they are. Whether it ends
an element of the frame around is decided by its contents and by a flag. -/
theorem Follows.close (follows : plain.Follows body building) (putsIn : hook.PutsIn body) :
    (plain.close .none).Follows body (building.close hook) := by
  obtain ⟨top, outer, ledger⟩ := building
  obtain ⟨rfl, rfl, agrees⟩ := follows
  unfold Building.close
  cases around : plain.outer with
  | nil => exact ⟨rfl, by simp [around], agrees⟩
  | cons parent others =>
    obtain ⟨branch, reported⟩ := Frame.finish_withBodies plain.top putsIn false agrees
    simp only [List.map_cons, Frame.finish_none, Frame.split_none, branch, Frame.push_withBodies,
      Frame.push_bound, Frame.withBodies_bound, Frame.hasContents_withBodies]
    split
    · obtain ⟨divided, after⟩ := Frame.split_withBodies (parent.push _) putsIn reported
      exact ⟨divided, rfl, after⟩
    · exact ⟨rfl, rfl, reported⟩

/-- A token is taken alike. The brackets have the same roles on both sides, and a token that stands
for itself is put in as what takes its place. -/
theorem Follows.take (follows : plain.Follows body building) (putsIn : hook.PutsIn body)
    (token : Token) :
    (plain.take nesting .none token).Follows body (building.take nesting hook token) := by
  have closed := follows.close putsIn
  obtain ⟨top, outer, ledger⟩ := building
  obtain ⟨rfl, rfl, agrees⟩ := follows
  unfold Building.take
  split
  · rename_i bound opened
    exact ⟨(Frame.start_withBodies body bound (some token)).symm, rfl, agrees⟩
  · have closes : (!(plain.outer.map (Frame.withBodies body)).isEmpty &&
          decide ((plain.top.withBodies body).bound.closing = token.value)) =
        (!plain.outer.isEmpty && decide (plain.top.bound.closing = token.value)) := by
      rw [List.isEmpty_map]
      rfl
    rw [closes, Frame.isSplitBy_withBodies]
    split
    · exact closed
    · split
      · obtain ⟨divided, after⟩ := Frame.split_withBodies plain.top putsIn agrees
        rw [Frame.split_none]
        exact ⟨divided, rfl, after⟩
      · split
        · exact ⟨rfl, rfl, agrees.report _ rfl⟩
        · have put : (ledger.visit hook (.leaf token)).1 = (Tree.leaf token).withBodies body := by
            rw [Tree.withBodies_leaf]
            exact putsIn.leaf token ledger.state
          simp only [put, Frame.push_withBodies, Ledger.visit_none]
          exact ⟨rfl, rfl, agrees.visit putsIn _⟩

/-- All tokens are taken alike. -/
theorem Follows.foldl_take (follows : plain.Follows body building) (putsIn : hook.PutsIn body)
    (tokens : List Token) :
    (tokens.foldl (Building.take nesting .none) plain).Follows body
      (tokens.foldl (Building.take nesting hook) building) := by
  induction tokens generalizing plain building with
  | nil => exact follows
  | cons token tokens inductionHypothesis =>
    exact inductionHypothesis (follows.take nesting putsIn token)

/-- What is still open at the end is closed alike. By induction over the frames around, each bound
is reported alike and its branch goes into the next frame. -/
theorem finish_withBodies (putsIn : hook.PutsIn body) (top : Frame) (outer : List Frame)
    {plain : Ledger Unit} {ledger : Ledger σ} (agrees : plain.Agrees ledger) :
    (finish hook (top.withBodies body) (outer.map (Frame.withBodies body)) ledger).1 =
        (finish .none top outer plain).1.withBodies body ∧
      (finish .none top outer plain).2.Agrees
        (finish hook (top.withBodies body) (outer.map (Frame.withBodies body)) ledger).2 := by
  induction outer generalizing top plain ledger with
  | nil =>
    rw [List.map_nil, finish, finish, Frame.finish_none]
    exact Frame.finish_withBodies top putsIn true agrees
  | cons parent outer inductionHypothesis =>
    rw [List.map_cons, finish, finish, Frame.withBodies_opener]
    simp only [Frame.finish_none]
    cases top.opener with
    | none =>
      obtain ⟨branch, reported⟩ := Frame.finish_withBodies top putsIn false agrees
      simp only [branch, Frame.push_withBodies]
      exact inductionHypothesis _ reported
    | some opener =>
      have incomplete := agrees.report
        ((Problem.incompleteBound top.bound.start top.bound.closing).diagnose opener) rfl
      obtain ⟨branch, reported⟩ := Frame.finish_withBodies top putsIn false incomplete
      simp only [Frame.withBodies_bound, branch, Frame.push_withBodies]
      exact inductionHypothesis _ reported

end Building

namespace Nesting

/-- A hook that puts trees in the place of leaves builds the tree that is built without it,
with those trees put in, and the same is reported about brackets. -/
theorem buildWith_putsIn (nesting : Nesting) {hook : NodeHook σ} {body : Token → Tree}
    (putsIn : hook.PutsIn body) (state : σ) (tokens : List Token) :
    (nesting.buildWith hook state tokens).value =
        (nesting.buildWith .none () tokens).value.withBodies body ∧
      (nesting.buildWith hook state tokens).diagnostics.filter Diagnostic.isAboutBrackets =
        (nesting.buildWith .none () tokens).diagnostics := by
  have begun : Building.Follows body
      { top := .start nesting.root none, outer := [], ledger := { state := () } }
      { top := .start nesting.root none, outer := [], ledger := { state } } :=
    ⟨(Frame.start_withBodies body nesting.root none).symm, rfl, rfl⟩
  obtain ⟨top, outer, agrees⟩ := begun.foldl_take nesting putsIn tokens
  simp only [buildWith, top, outer]
  exact Building.finish_withBodies putsIn _ _ agrees

/-- Whatever the bounds, the definitions and the tokens are: the tree that is built with
definitions is the one that is built without, with the definition put in the place of each
leaf that stands for one, and the same is reported about brackets. -/
theorem buildWith_expand_commutes (nesting : Nesting) (definitions : Definitions Tree)
    (marker : Option String) (tokens : List Token) :
    (nesting.buildWith (.expand definitions marker) () tokens).value =
        (nesting.buildWith .none () tokens).value.withBodies (definitions.bodyOf marker) ∧
      (nesting.buildWith (.expand definitions marker) () tokens).diagnostics.filter
          Diagnostic.isAboutBrackets =
        (nesting.buildWith .none () tokens).diagnostics :=
  nesting.buildWith_putsIn (NodeHook.expand_putsIn definitions marker) () tokens

end Nesting

end Parlance
