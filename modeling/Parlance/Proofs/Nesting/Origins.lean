import Parlance.Nesting.Build
import Parlance.Proofs.Diagnostic

/-!
# Where tokens of a nesting come from

Building a tree makes no tokens either. The leaves of the tree are tokens that were
taken, or come from the hook, and what is reported is reported about a token that was
taken: a closing token that matches nothing, or the token that opened a bound which is
never closed. So a property that all tokens have and that the hook respects is one of
everything that is built and reported.
-/

namespace Parlance

variable {holds : Token → Prop} {σ : Type}

/-- All tokens of the tree have the property. -/
def Tree.All (holds : Token → Prop) (tree : Tree) : Prop := ∀ token ∈ tree.leaves, holds token

/-- The tokens of a branch are those of its children. -/
theorem Tree.all_branch {name : String} {children : List Tree}
    (each : ∀ child ∈ children, child.All holds) : (Tree.branch name children).All holds := by
  intro token member
  obtain ⟨child, inside, among⟩ := Tree.mem_leavesAll.mp member
  exact each child inside token among

/-- The hook puts in tokens with the property, and reports only such tokens, as long as
it is shown no others. -/
def NodeHook.Respects (holds : Token → Prop) (hook : NodeHook σ) : Prop :=
  ∀ node state, node.All holds →
    (hook node state).node.All holds ∧
      ∀ diagnostic ∈ (hook node state).diagnostics, diagnostic.About holds

/-- Definitions respect a property that all their tokens have. A marked name without a definition
stays as it was, and the report about it is placed at its own token. -/
theorem NodeHook.expand_respects {definitions : Definitions Tree}
    (bodies : ∀ name body, definitions.find? name = some body → body.All holds)
    (marker : Option String) : NodeHook.Respects holds (.expand definitions marker) := by
  intro node state tokens
  unfold NodeHook.expand
  cases node with
  | branch name children => exact ⟨tokens, by simp⟩
  | leaf token =>
    have own : holds token := tokens token (by simp [Tree.leaves])
    simp only
    split
    · rename_i body found
      exact ⟨bodies _ body found, by simp⟩
    · split
      · exact ⟨tokens, by simp⟩
      · split
        · simp only [Definitions.resolve]
          refine ⟨?_, ?_⟩
          · cases found : definitions.find? _ with
            | none => exact tokens
            | some body => exact bodies _ body found
          · split
            · simp
            · simpa using Problem.diagnose_about _ own
        · exact ⟨tokens, by simp⟩

/-- What was reported is about tokens with the property. -/
def Ledger.Given (holds : Token → Prop) (ledger : Ledger σ) : Prop :=
  ∀ diagnostic ∈ ledger.diagnostics, diagnostic.About holds

/-- Showing a node to a hook that respects the property. -/
theorem Ledger.visit_given {hook : NodeHook σ} (respects : hook.Respects holds)
    {ledger : Ledger σ} (reported : ledger.Given holds) {node : Tree} (tokens : node.All holds) :
    (ledger.visit hook node).1.All holds ∧ (ledger.visit hook node).2.Given holds := by
  obtain ⟨kept, about⟩ := respects node ledger.state tokens
  exact ⟨kept, List.forall_mem_append.mpr ⟨reported, about⟩⟩

/-- Reporting a problem with a token that has the property. -/
theorem Ledger.report_given {ledger : Ledger σ} (reported : ledger.Given holds)
    (problem : Problem) {token : Token} (own : holds token) :
    (ledger.report (problem.diagnose token)).Given holds := by
  refine List.forall_mem_append.mpr ⟨reported, ?_⟩
  simpa using problem.diagnose_about own

namespace Frame

/-- The tokens in a bound that is being filled have the property. -/
structure Given (holds : Token → Prop) (frame : Frame) : Prop where
  opener : ∀ token ∈ frame.opener, holds token
  finished : ∀ tree ∈ frame.finished, tree.All holds
  current : ∀ contents ∈ frame.current, ∀ tree ∈ contents, tree.All holds

/-- A bound that has just begun has no tokens but its opener. -/
theorem start_given (bound : Bound) {opener : Option Token}
    (own : ∀ token ∈ opener, holds token) : (start bound opener).Given holds := by
  refine ⟨own, by simp [start], ?_⟩
  cases element : bound.element <;> simp [start, element]

/-- A tree whose tokens have the property can be added. It goes into the element in progress or to
the finished children, and all else is as it was. -/
theorem Given.push {frame : Frame} (given : frame.Given holds) {child : Tree}
    (tokens : child.All holds) : (frame.push child).Given holds := by
  unfold Frame.push
  cases current : frame.current with
  | none => exact ⟨given.opener, List.forall_mem_cons.mpr ⟨tokens, given.finished⟩, by simp⟩
  | some contents =>
    have inside := given.current contents current
    refine ⟨given.opener, given.finished, ?_⟩
    rintro _ ⟨⟩
    exact List.forall_mem_cons.mpr ⟨tokens, inside⟩

/-- The branch of a bound holds its tokens. -/
theorem Given.node {frame : Frame} (given : frame.Given holds) : frame.node.All holds :=
  Tree.all_branch fun child member => given.finished child (List.mem_reverse.mp member)

/-- The branch of an element holds its tokens. -/
theorem Given.elementNode {frame : Frame} (given : frame.Given holds) {contents : List Tree}
    (inProgress : frame.current = some contents) : (frame.elementNode contents).All holds :=
  Tree.all_branch fun child member =>
    given.current contents inProgress child (List.mem_reverse.mp member)

variable {hook : NodeHook σ} {ledger : Ledger σ} {frame : Frame}

/-- Finishing an element shows the hook only tokens with the property, so it puts in and reports
only such. -/
theorem Given.split (given : frame.Given holds) (respects : hook.Respects holds)
    (reported : ledger.Given holds) :
    (frame.split hook ledger).1.Given holds ∧ (frame.split hook ledger).2.Given holds := by
  unfold Frame.split
  split
  · exact ⟨given, reported⟩
  · rename_i contents inProgress
    obtain ⟨element, after⟩ :=
      Ledger.visit_given respects reported (given.elementNode inProgress)
    refine ⟨⟨given.opener, List.forall_mem_cons.mpr ⟨element, given.finished⟩, ?_⟩, after⟩
    rintro _ ⟨⟩
    simp

/-- Finishing a bound shows the hook only tokens with the property, so what is in the branch and
what is reported has the property too. -/
theorem Given.finish (given : frame.Given holds) (respects : hook.Respects holds) (prune : Bool)
    (reported : ledger.Given holds) :
    (frame.finish hook prune ledger).1.All holds ∧
      (frame.finish hook prune ledger).2.Given holds := by
  unfold Frame.finish
  split
  · exact Ledger.visit_given respects reported given.node
  · rename_i contents inProgress
    split
    · exact Ledger.visit_given respects reported given.node
    · obtain ⟨element, after⟩ :=
        Ledger.visit_given respects reported (given.elementNode inProgress)
      refine Ledger.visit_given respects after (Tree.all_branch fun child member => ?_)
      rcases List.mem_cons.mp (List.mem_reverse.mp member) with rfl | earlier
      · exact element
      · exact given.finished child earlier

end Frame

namespace Building

/-- The tokens of a tree that is being built have the property. -/
structure Given (holds : Token → Prop) (building : Building σ) : Prop where
  top : building.top.Given holds
  outer : ∀ frame ∈ building.outer, frame.Given holds
  reported : building.ledger.Given holds

variable {nesting : Nesting} {hook : NodeHook σ} {building : Building σ}

/-- Closing a bound keeps to the tokens that were taken. Its branch is made of what it holds, and
shown to a hook that respects the property. -/
theorem Given.close (given : building.Given holds) (respects : hook.Respects holds) :
    (building.close hook).Given holds := by
  unfold Building.close
  split
  · exact given
  · rename_i parent outer around
    have outside := given.outer
    rw [around] at outside
    obtain ⟨parentGiven, outerGiven⟩ := List.forall_mem_cons.mp outside
    obtain ⟨node, after⟩ := given.top.finish respects false given.reported
    have pushed := parentGiven.push node
    simp only
    split
    · obtain ⟨divided, afterwards⟩ := pushed.split respects after
      exact ⟨divided, outerGiven, afterwards⟩
    · exact ⟨pushed, outerGiven, after⟩

/-- Taking a token keeps to the tokens that were taken and this one. Whatever the token does, it is
put into the tree by itself, becomes an opener, or is reported. -/
theorem Given.take (given : building.Given holds) (respects : hook.Respects holds) {token : Token}
    (own : holds token) : (building.take nesting hook token).Given holds := by
  unfold Building.take
  split
  · exact ⟨Frame.start_given _ (by simpa using own),
      List.forall_mem_cons.mpr ⟨given.top, given.outer⟩, given.reported⟩
  · split
    · exact given.close respects
    · split
      · obtain ⟨divided, after⟩ := given.top.split respects given.reported
        exact ⟨divided, given.outer, after⟩
      · split
        · exact ⟨given.top, given.outer, Ledger.report_given given.reported _ own⟩
        · have leaf : (Tree.leaf token).All holds := by simpa [Tree.All, Tree.leaves] using own
          obtain ⟨kept, after⟩ := Ledger.visit_given respects given.reported leaf
          exact ⟨given.top.push kept, given.outer, after⟩

/-- Closing what is still open keeps to the tokens that were taken. By induction over the frames
around; what is reported about a bound is placed at its opener. -/
theorem finish_given (respects : hook.Respects holds) {top : Frame} {outer : List Frame}
    {ledger : Ledger σ} (topGiven : top.Given holds)
    (outerGiven : ∀ frame ∈ outer, frame.Given holds) (reported : ledger.Given holds) :
    (finish hook top outer ledger).1.All holds ∧ (finish hook top outer ledger).2.Given holds := by
  induction outer generalizing top ledger with
  | nil => exact topGiven.finish respects true reported
  | cons parent outer inductionHypothesis =>
    obtain ⟨parentGiven, others⟩ := List.forall_mem_cons.mp outerGiven
    rw [finish]
    cases opener : top.opener with
    | none =>
      obtain ⟨node, after⟩ := topGiven.finish respects false reported
      exact inductionHypothesis (parentGiven.push node) others after
    | some token =>
      have incomplete := Ledger.report_given reported
        (.incompleteBound top.bound.start top.bound.closing) (topGiven.opener token opener)
      obtain ⟨node, after⟩ := topGiven.finish respects false incomplete
      exact inductionHypothesis (parentGiven.push node) others after

end Building

/-- Building keeps to the tokens that are taken. By induction over the tokens and then over the
frames that are left open. -/
theorem Nesting.buildWith_given (nesting : Nesting) {hook : NodeHook σ}
    (respects : hook.Respects holds) (state : σ) {tokens : List Token}
    (own : ∀ token ∈ tokens, holds token) :
    (nesting.buildWith hook state tokens).value.All holds ∧
      ∀ diagnostic ∈ (nesting.buildWith hook state tokens).diagnostics,
        diagnostic.About holds := by
  have filled (building : Building σ) (given : building.Given holds) :
      (tokens.foldl (Building.take nesting hook) building).Given holds := by
    induction tokens generalizing building with
    | nil => exact given
    | cons token tokens inductionHypothesis =>
      obtain ⟨first, others⟩ := List.forall_mem_cons.mp own
      exact inductionHypothesis others _ (given.take respects first)
  have reached := filled { top := .start nesting.root none, outer := [], ledger := { state } }
    ⟨Frame.start_given _ (by simp), by simp, by simp [Ledger.Given]⟩
  exact Building.finish_given respects reached.top reached.outer reached.reported

end Parlance
