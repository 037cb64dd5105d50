import Parlance.Proofs.Nesting.Expansion

/-!
# What a hook is shown

A hook is shown every node of the tree that is built, each once and when it is complete: a
branch behind its children, and these from left to right. It is shown nothing else. The last
element of the root, where it is left out, is no node of the tree and is not shown.

The nodes of the tree in this order are read off the tree alone. While it is being built, the
hook has seen the nodes of everything that the open bounds hold so far, read from the root
inwards; the branches of the bounds and elements that are still being filled come last, when
they end.
-/

namespace Parlance

namespace Tree

mutual

/-- The nodes of the tree, each as the whole tree below it and behind the nodes of its
children. -/
def postOrder : Tree → List Tree
  | .leaf token => [.leaf token]
  | .branch name children => postOrderAll children ++ [.branch name children]

/-- The nodes of several trees, one tree behind the other. -/
def postOrderAll : List Tree → List Tree
  | [] => []
  | tree :: trees => tree.postOrder ++ postOrderAll trees

end

/-- The nodes of trees behind others come behind the nodes of those. -/
theorem postOrderAll_append (left right : List Tree) :
    postOrderAll (left ++ right) = postOrderAll left ++ postOrderAll right := by
  induction left with
  | nil => rfl
  | cons tree trees inductionHypothesis =>
    rw [List.cons_append, postOrderAll, inductionHypothesis, postOrderAll, List.append_assoc]

/-- A tree at the end adds its nodes at the end. -/
theorem postOrderAll_concat (trees : List Tree) (tree : Tree) :
    postOrderAll (trees ++ [tree]) = postOrderAll trees ++ tree.postOrder := by
  rw [postOrderAll_append, postOrderAll, postOrderAll, List.append_nil]

mutual

/-- There is one entry for every node. -/
theorem length_postOrder (tree : Tree) : tree.postOrder.length = tree.size := by
  cases tree with
  | leaf token => rfl
  | branch name children =>
    rw [postOrder, List.length_append, length_postOrderAll children, List.length_singleton, size,
      Nat.add_comm]

/-- Every node of the trees is listed, and listed just once. -/
theorem length_postOrderAll (trees : List Tree) :
    (postOrderAll trees).length = sizeAll trees := by
  cases trees with
  | nil => rfl
  | cons tree trees =>
    rw [postOrderAll, List.length_append, length_postOrder tree, length_postOrderAll trees,
      sizeAll]

end

mutual

/-- A tree with each leaf in its own place is the same tree. -/
theorem withBodies_self (tree : Tree) : tree.withBodies leaf = tree := by
  cases tree with
  | leaf token => rfl
  | branch name children => rw [withBodies, withBodiesAll_self children]

/-- Putting every leaf in its own place changes nothing, in several trees as in one. -/
theorem withBodiesAll_self (trees : List Tree) : withBodiesAll leaf trees = trees := by
  cases trees with
  | nil => rfl
  | cons tree trees => rw [withBodiesAll, withBodies_self tree, withBodiesAll_self trees]

end

end Tree

/-! ## The hook that remembers -/

/-- The hook that remembers nodes leaves them as they are, so it puts every leaf in its own place
and reports nothing. -/
theorem NodeHook.recording_putsIn : NodeHook.recording.PutsIn Tree.leaf where
  leaf _ _ := rfl
  branches _ _ _ := rfl
  silent _ _ := rfl

/-- The hook that remembers nodes is shown a node: it is the newest of those remembered, and all
else stays. -/
@[simp] theorem Ledger.visit_recording (ledger : Ledger (List Tree)) (node : Tree) :
    ledger.visit .recording node = (node, { ledger with state := node :: ledger.state }) := by
  simp [Ledger.visit, NodeHook.recording]

namespace Frame

/-- The nodes of what the frame holds so far. -/
def shown (frame : Frame) : List Tree :=
  Tree.postOrderAll frame.finished.reverse ++
    Tree.postOrderAll (frame.current.getD []).reverse

/-- Nothing has been shown of a bound that has just begun. -/
theorem start_shown (bound : Bound) (opener : Option Token) : (start bound opener).shown = [] := by
  cases element : bound.element <;> simp [start, shown, Tree.postOrderAll, element]

/-- The nodes of a child that is added come behind all that the frame has shown. -/
theorem push_shown (frame : Frame) (child : Tree) :
    (frame.push child).shown = frame.shown ++ child.postOrder := by
  cases current : frame.current <;>
    simp [push, shown, current, Tree.postOrderAll_concat, Tree.postOrderAll]

variable {frame : Frame} {ledger : Ledger (List Tree)} {before : List Tree}

/-- Where an element ends, its branch is shown behind its contents. -/
theorem split_recorded (recorded : ledger.state.reverse = before ++ frame.shown) :
    (frame.split .recording ledger).2.state.reverse =
      before ++ (frame.split .recording ledger).1.shown := by
  cases current : frame.current with
  | none => simpa [split, current] using recorded
  | some contents =>
    simp [split, current, recorded, shown, elementNode, Tree.postOrderAll_concat, Tree.postOrder,
      Tree.postOrderAll]

/-- Where a bound ends, its branch is shown behind its children. -/
theorem node_postOrder (unfilled : frame.current.getD [] = []) :
    frame.node.postOrder = frame.shown ++ [frame.node] := by
  simp [node, shown, unfilled, Tree.postOrder, Tree.postOrderAll]

/-- The branch of a bound that ends is shown last, behind its last element where that is not
left out. -/
theorem finish_recorded (prune : Bool) (recorded : ledger.state.reverse = before ++ frame.shown) :
    (frame.finish .recording prune ledger).2.state.reverse =
      before ++ (frame.finish .recording prune ledger).1.postOrder := by
  cases current : frame.current with
  | none =>
    simp only [finish, current, Ledger.visit_recording]
    rw [node_postOrder (by rw [current]; rfl)]
    simp [recorded]
  | some contents =>
    simp only [finish, current, Ledger.visit_recording]
    split
    · rename_i omitted
      have empty : contents = [] := by
        simp only [Bool.and_eq_true, List.isEmpty_iff] at omitted
        exact omitted.1.2
      rw [node_postOrder (by rw [current, empty]; rfl)]
      simp [recorded]
    · simp [recorded, node, shown, current, elementNode, Tree.postOrder,
        Tree.postOrderAll_concat]

end Frame

namespace Building

/-- The nodes of what open bounds hold so far, the innermost of which comes first. -/
def shownIn : List Frame → List Tree
  | [] => []
  | frame :: frames => shownIn frames ++ frame.shown

/-- The hook remembers the nodes of what the open bounds hold so far. -/
def Recorded (building : Building (List Tree)) : Prop :=
  building.ledger.state.reverse = shownIn (building.top :: building.outer)

variable {nesting : Nesting} {building : Building (List Tree)}

/-- A bound that closes is shown before the element that it ends. Its own last element and its
branch come first, then the element of the bound around it, if that is ended. -/
theorem Recorded.close (recorded : building.Recorded) : (building.close .recording).Recorded := by
  unfold Building.close
  split
  · exact recorded
  · rename_i parent outer around
    have inside : building.ledger.state.reverse =
        shownIn (parent :: outer) ++ building.top.shown := by
      rw [← around]
      exact recorded
    have finished := Frame.finish_recorded false inside
    rw [shownIn, List.append_assoc, ← Frame.push_shown] at finished
    simp only
    split
    · exact Frame.split_recorded finished
    · exact finished

/-- Taking a token adds the nodes of what it finishes just where they belong. A start adds none, and
a leaf adds itself; a separator adds the branch of an element, behind its contents, and a closing
token adds that of the bound as well. -/
theorem Recorded.take (recorded : building.Recorded) (token : Token) :
    (building.take nesting .recording token).Recorded := by
  unfold Building.take
  split
  · rename_i bound opened
    rw [Recorded, shownIn, Frame.start_shown, List.append_nil]
    exact recorded
  · split
    · exact recorded.close
    · split
      · exact Frame.split_recorded recorded
      · split
        · exact recorded
        · simp only [Ledger.visit_recording]
          rw [Recorded, shownIn, Frame.push_shown, List.reverse_cons, ← List.append_assoc]
          exact congrArg (· ++ [Tree.leaf token]) recorded

/-- By induction over the tokens, the hook remembers what the open bounds hold at every point of the
text. -/
theorem Recorded.foldl_take (recorded : building.Recorded) (tokens : List Token) :
    (tokens.foldl (Building.take nesting .recording) building).Recorded := by
  induction tokens generalizing building with
  | nil => exact recorded
  | cons token tokens inductionHypothesis => exact inductionHypothesis (recorded.take token)

/-- Closing what is still open shows the branches around what was shown already. By induction over
the frames around, each of which shows its last element and its branch. -/
theorem finish_recorded {top : Frame} {outer : List Frame} {ledger : Ledger (List Tree)}
    (recorded : ledger.state.reverse = shownIn (top :: outer)) :
    (finish .recording top outer ledger).2.state.reverse =
      (finish .recording top outer ledger).1.postOrder := by
  induction outer generalizing top ledger with
  | nil =>
    exact Frame.finish_recorded true recorded
  | cons parent outer inductionHypothesis =>
    -- Reporting the token that opened the bound shows nothing to the hook.
    have closed (reported : Ledger (List Tree)) (same : reported.state = ledger.state) :
        (top.finish .recording false reported).2.state.reverse =
          shownIn (parent.push (top.finish .recording false reported).1 :: outer) := by
      rw [shownIn, Frame.push_shown, ← List.append_assoc]
      exact Frame.finish_recorded false (same ▸ recorded)
    rw [finish]
    cases top.opener with
    | none => exact inductionHypothesis (closed ledger rfl)
    | some opener => exact inductionHypothesis (closed (ledger.report _) rfl)

end Building

namespace Nesting

/-- Whatever the bounds and the tokens are: a hook that remembers what it is shown has seen the
nodes of the tree that is built, each once and behind those of its children, and nothing else.
The tree is the one that is built without a hook. -/
theorem buildWith_recording_postOrder (nesting : Nesting) (tokens : List Token) :
    (nesting.buildWith .recording [] tokens).state.reverse =
        (nesting.buildWith .recording [] tokens).value.postOrder ∧
      (nesting.buildWith .recording [] tokens).state.length =
        (nesting.buildWith .recording [] tokens).value.size ∧
      (nesting.buildWith .recording [] tokens).value =
        (nesting.buildWith .none () tokens).value := by
  have begun : Building.Recorded
      { top := .start nesting.root none, outer := [], ledger := { state := [] } } := by
    simp [Building.Recorded, Building.shownIn, Frame.start_shown]
  have listed : (nesting.buildWith .recording [] tokens).state.reverse =
      (nesting.buildWith .recording [] tokens).value.postOrder :=
    Building.finish_recorded (begun.foldl_take tokens)
  refine ⟨listed, ?_, ?_⟩
  · rw [← List.length_reverse, listed, Tree.length_postOrder]
  · rw [(nesting.buildWith_putsIn NodeHook.recording_putsIn [] tokens).1, Tree.withBodies_self]

end Nesting

end Parlance
