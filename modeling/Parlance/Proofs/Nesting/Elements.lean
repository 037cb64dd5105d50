import Parlance.Proofs.Nesting.Step

/-!
# The root and its elements

Whatever tokens are taken, the tree that is built is a branch with the name of the root, and
where the root has elements, all of its children are branches with their name. A hook may
exchange leaves, but has to leave branches as they are; definitions are put in by such a
hook.

Every bound that is being filled keeps to this: what it holds so far are finished elements,
as long as it has an element level at all.
-/

namespace Parlance

variable {σ : Type}

namespace NodeHook

/-- The hook leaves branches as they are. -/
def KeepsBranches (hook : NodeHook σ) : Prop :=
  ∀ name children state, (hook (.branch name children) state).node = .branch name children

/-- Definitions are put in the place of leaves only, so this hook keeps branches. -/
theorem expand_keepsBranches (definitions : Definitions Tree) (marker : Option String) :
    (NodeHook.expand definitions marker).KeepsBranches := fun _ _ _ => rfl

end NodeHook

/-- A branch that is shown to a hook that keeps branches is given back. -/
theorem Ledger.visit_branch {hook : NodeHook σ} (keeps : hook.KeepsBranches) (ledger : Ledger σ)
    (name : String) (children : List Tree) :
    (ledger.visit hook (.branch name children)).1 = .branch name children :=
  keeps name children ledger.state

namespace Frame

/-- Where the bound has elements, one is in progress, and all that the bound holds so far
are elements. -/
def Grouped (frame : Frame) : Prop :=
  ∀ element, frame.bound.element = some element →
    frame.current.isSome ∧ ∀ tree ∈ frame.finished, tree.isNamed element

/-- A bound that has just begun holds no children yet, and an element is in progress if it has
elements. -/
theorem start_grouped (bound : Bound) (opener : Option Token) : (start bound opener).Grouped := by
  intro element named
  have held : bound.element = some element := named
  simp [start, held]

/-- A child goes into the element in progress where there are elements, so the children of the bound
stay what they were. -/
theorem Grouped.push {frame : Frame} (grouped : frame.Grouped) (child : Tree) :
    (frame.push child).Grouped := by
  intro element named
  rw [push_bound] at named
  obtain ⟨inProgress, finished⟩ := grouped element named
  refine ⟨by simpa using inProgress, ?_⟩
  cases current : frame.current with
  | none => simp [current] at inProgress
  | some contents => simpa [Frame.push, current] using finished

variable {hook : NodeHook σ} {frame : Frame}

/-- Finishing an element leaves the bound that is filled as it is, whatever the hook does. -/
@[simp] theorem split_bound (hook : NodeHook σ) (frame : Frame) (ledger : Ledger σ) :
    (frame.split hook ledger).1.bound = frame.bound := by
  cases current : frame.current <;> simp [split, current]

/-- An element that is finished is named as one. -/
theorem visit_elementNode (keeps : hook.KeepsBranches) {element : String}
    (named : frame.bound.element = some element) (ledger : Ledger σ) (contents : List Tree) :
    (ledger.visit hook (frame.elementNode contents)).1.isNamed element := by
  rw [elementNode, Ledger.visit_branch keeps]
  simp [Tree.isNamed, named]

/-- Dividing a bound adds an element to those that it holds. The branch of the element has the name
of elements, and the hook keeps it. -/
theorem Grouped.split (grouped : frame.Grouped) (keeps : hook.KeepsBranches)
    (ledger : Ledger σ) : (frame.split hook ledger).1.Grouped := by
  intro element named
  rw [split_bound] at named
  obtain ⟨inProgress, finished⟩ := grouped element named
  cases current : frame.current with
  | none => simp [current] at inProgress
  | some contents =>
    simp only [Frame.split, current, Option.isSome_some, true_and]
    exact List.forall_mem_cons.mpr ⟨visit_elementNode keeps named ledger contents, finished⟩

/-- A bound is finished as a branch of its name, whose children are elements where it has
elements. -/
theorem Grouped.finish (grouped : frame.Grouped) (keeps : hook.KeepsBranches) (prune : Bool)
    (ledger : Ledger σ) :
    ∃ children, (frame.finish hook prune ledger).1 = .branch frame.bound.name children ∧
      ∀ element, frame.bound.element = some element →
        ∀ child ∈ children, child.isNamed element := by
  have held (ledger : Ledger σ) : ∃ children,
      (ledger.visit hook frame.node).1 = .branch frame.bound.name children ∧
        ∀ element, frame.bound.element = some element →
          ∀ child ∈ children, child.isNamed element := by
    refine ⟨frame.finished.reverse, Ledger.visit_branch keeps ledger _ _, ?_⟩
    intro element named child member
    exact (grouped element named).2 child (List.mem_reverse.mp member)
  unfold Frame.finish
  split
  · exact held ledger
  · rename_i contents current
    split
    · exact held ledger
    · refine ⟨_, Ledger.visit_branch keeps _ _ _, ?_⟩
      intro element named child member
      rcases List.mem_cons.mp (List.mem_reverse.mp member) with rfl | earlier
      · exact visit_elementNode keeps named ledger contents
      · exact (grouped element named).2 child earlier

end Frame

namespace Building

/-- All open bounds hold their elements, and the outermost one is the root. -/
structure Rooted (root : Bound) (building : Building σ) : Prop where
  grouped : ∀ frame ∈ building.top :: building.outer, frame.Grouped
  outermost : ((building.top :: building.outer).map (·.bound)).getLast? = some root

variable {nesting : Nesting} {hook : NodeHook σ} {root : Bound} {building : Building σ}

/-- What is done to the innermost bound leaves it with the same root. -/
theorem Rooted.replaceTop (rooted : building.Rooted root) {top : Frame} (grouped : top.Grouped)
    (same : top.bound = building.top.bound) (ledger : Ledger σ) :
    Rooted root { building with top, ledger } := by
  refine ⟨?_, ?_⟩
  · exact List.forall_mem_cons.mpr ⟨grouped, (List.forall_mem_cons.mp rooted.grouped).2⟩
  · simpa [same] using rooted.outermost

/-- Closing a bound keeps the root. The frame that is closed is not the outermost one, as there is
another around it. -/
theorem Rooted.close (rooted : building.Rooted root) (keeps : hook.KeepsBranches) :
    (building.close hook).Rooted root := by
  unfold Building.close
  split
  · exact rooted
  · rename_i parent outer around
    have grouped := rooted.grouped
    have outermost := rooted.outermost
    rw [around] at grouped outermost
    obtain ⟨_, parentGrouped, others⟩ := by simpa only [List.forall_mem_cons] using grouped
    rw [List.map_cons, List.map_cons, List.getLast?_cons_cons] at outermost
    simp only
    split
    · refine ⟨List.forall_mem_cons.mpr ⟨(parentGrouped.push _).split keeps _, others⟩, ?_⟩
      simpa using outermost
    · refine ⟨List.forall_mem_cons.mpr ⟨parentGrouped.push _, others⟩, ?_⟩
      simpa using outermost

/-- Taking a token keeps the root. A start adds a frame that is grouped, and everything else changes
the innermost frame or closes it. -/
theorem Rooted.take (rooted : building.Rooted root) (keeps : hook.KeepsBranches)
    (token : Token) : (building.take nesting hook token).Rooted root := by
  have topGrouped := (List.forall_mem_cons.mp rooted.grouped).1
  unfold Building.take
  split
  · rename_i bound _
    refine ⟨List.forall_mem_cons.mpr ⟨Frame.start_grouped bound _, rooted.grouped⟩, ?_⟩
    simpa [List.getLast?_cons_cons] using rooted.outermost
  · split
    · exact rooted.close keeps
    · split
      · exact rooted.replaceTop (topGrouped.split keeps _) (Frame.split_bound hook _ _) _
      · split
        · exact rooted.replaceTop topGrouped rfl _
        · exact rooted.replaceTop (topGrouped.push _) (Frame.push_bound _ _) _

/-- Closing what is still open ends with the root. By induction over the frames around, each of
which takes the branch of the one inside. -/
theorem finish_rooted (keeps : hook.KeepsBranches) {top : Frame} {outer : List Frame}
    {ledger : Ledger σ} (grouped : ∀ frame ∈ top :: outer, frame.Grouped)
    (outermost : ((top :: outer).map (·.bound)).getLast? = some root) :
    ∃ children, (finish hook top outer ledger).1 = .branch root.name children ∧
      ∀ element, root.element = some element → ∀ child ∈ children, child.isNamed element := by
  induction outer generalizing top ledger with
  | nil =>
    obtain rfl : top.bound = root := by simpa using outermost
    exact (grouped top List.mem_cons_self).finish keeps true ledger
  | cons parent outer inductionHypothesis =>
    obtain ⟨_, parentGrouped, others⟩ := by simpa only [List.forall_mem_cons] using grouped
    rw [List.map_cons, List.map_cons, List.getLast?_cons_cons] at outermost
    exact inductionHypothesis (List.forall_mem_cons.mpr ⟨parentGrouped.push _, others⟩)
      (by simpa using outermost)

end Building

/-- A tree is built as a branch with the name of the root, whose children are elements where
the root has elements. -/
theorem Nesting.build_rooted (nesting : Nesting) (tokens : List Token) :
    ∃ children, (nesting.build tokens).value = .branch nesting.root.name children ∧
      ∀ element, nesting.root.element = some element →
        ∀ child ∈ children, child.isNamed element := by
  have keeps := NodeHook.expand_keepsBranches nesting.definitions none
  have filled (building : Building Unit) (rooted : building.Rooted nesting.root) :
      (tokens.foldl (Building.take nesting (.expand nesting.definitions none))
        building).Rooted nesting.root := by
    induction tokens generalizing building with
    | nil => exact rooted
    | cons token tokens inductionHypothesis =>
      exact inductionHypothesis _ (rooted.take keeps token)
  have reached := filled { top := .start nesting.root none, outer := [], ledger := { state := () } }
    ⟨by simpa using Frame.start_grouped nesting.root none, rfl⟩
  exact Building.finish_rooted keeps reached.grouped reached.outermost

end Parlance
