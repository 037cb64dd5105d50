import Mathlib.Data.List.Induction
import Parlance.Proofs.Nesting.Brackets
import Parlance.Proofs.Nesting.Document

/-!
# Trees follow the declared bounds

However broken its brackets are, a list of tokens is built into a tree of the declared form. The
tree is the branch of the root, and the branch of a bound holds what the bound says: leaves and
branches of declared bounds, or, where it has elements, at least one of them, which hold these.
Where nothing divides its elements, a bound has exactly one.

The root leaves out the element in progress at the end of the tokens when it is empty and not
the only one, and no other. An empty element that a separator ended is kept, also when it is
then the last one: two separators at the end leave an empty element behind. This is the only way
in which the last of several elements of the root is empty.
-/

namespace Parlance

namespace Nesting

mutual

/-- The tree is a branch of the bound with children of the declared form. -/
inductive Conforms (nesting : Nesting) : Bound → Tree → Prop where
  /-- Without elements, the contents are the children. -/
  | flat {bound : Bound} {children : List Tree} (ungrouped : bound.element = none)
    (contents : Contents nesting children) : Conforms nesting bound (.branch bound.name children)
  /-- The elements are the children. There is one at least, and only one where neither a
  separator nor a closing token divides. -/
  | grouped {bound : Bound} {element : String} {elements : List (List Tree)}
    (grouped : bound.element = some element) (some : elements ≠ [])
    (single : bound.split = none → bound.endIsParentSplit = false → elements.length = 1)
    (contents : ∀ inside ∈ elements, Contents nesting inside) :
    Conforms nesting bound (.branch bound.name (elements.map (.branch element)))

/-- The trees are leaves and branches of declared bounds. -/
inductive Contents (nesting : Nesting) : List Tree → Prop where
  | nil : Contents nesting []
  | leaf {token : Token} {trees : List Tree} (rest : Contents nesting trees) :
    Contents nesting (.leaf token :: trees)
  | bound {start : String} {bound : Bound} {tree : Tree} {trees : List Tree}
    (declared : nesting.opened? start = some bound) (conforms : Conforms nesting bound tree)
    (rest : Contents nesting trees) : Contents nesting (tree :: trees)

end

/-- Contents behind contents are contents. -/
theorem Contents.append {nesting : Nesting} {left right : List Tree}
    (first : nesting.Contents left) (second : nesting.Contents right) :
    nesting.Contents (left ++ right) := by
  induction left with
  | nil => exact second
  | cons tree trees inductionHypothesis =>
    cases first with
    | leaf rest => exact .leaf (inductionHypothesis rest)
    | bound declared conforms rest => exact .bound declared conforms (inductionHypothesis rest)

end Nesting

namespace Frame

/-- What the frame holds so far has the form that its bound declares. -/
inductive Shaped (nesting : Nesting) (frame : Frame) : Prop where
  | flat (ungrouped : frame.bound.element = none) (current : frame.current = none)
    (contents : nesting.Contents frame.finished.reverse)
  /-- Behind the finished elements another one is in progress. -/
  | grouped {element : String} {elements : List (List Tree)} {inProgress : List Tree}
    (grouped : frame.bound.element = some element) (current : frame.current = some inProgress)
    (finished : frame.finished.reverse = elements.map (.branch element))
    (single : frame.bound.split = none → frame.bound.endIsParentSplit = false → elements = [])
    (contents : ∀ inside ∈ elements, nesting.Contents inside)
    (unfinished : nesting.Contents inProgress.reverse)

variable {nesting : Nesting} {frame child : Frame}

/-- A bound that has just begun has the form that it declares, with nothing in it. -/
theorem start_shaped (nesting : Nesting) (bound : Bound) (opener : Option Token) :
    (start bound opener).Shaped nesting := by
  cases element : bound.element with
  | none => exact .flat element (by simp [start, element]) .nil
  | some name =>
    have current : (start bound opener).current = some [] := by simp [start, element]
    exact .grouped element current (by simp [start]) (fun _ _ => rfl) (by simp) .nil

/-- What is put in joins the contents of the element in progress, or of the bound. A bound without
elements takes it as a child, and an element as a part of its contents. -/
theorem Shaped.push (shaped : frame.Shaped nesting) {tree : Tree}
    (added : nesting.Contents [tree]) : (frame.push tree).Shaped nesting := by
  cases shaped with
  | flat ungrouped current contents =>
    refine .flat (by simpa using ungrouped) (by simp [Frame.push, current]) ?_
    simpa [Frame.push, current] using contents.append added
  | @grouped element elements inProgress grouped current finished single contents unfinished =>
    have pushed : (frame.push tree).current = some (tree :: inProgress) := by
      simp [Frame.push, current]
    refine .grouped (by simpa using grouped) pushed ?_ (by simpa using single) contents ?_
    · simpa [Frame.push, current] using finished
    · simpa using unfinished.append added

/-- An element may end where a separator or a closing token divides. Behind it a new one begins, and
there is more than one element only because the bound is divided. -/
theorem Shaped.next (shaped : frame.Shaped nesting)
    (divided : frame.bound.split ≠ none ∨ frame.bound.endIsParentSplit = true) :
    frame.next.Shaped nesting := by
  cases shaped with
  | flat ungrouped current contents =>
    have same : frame.next = frame := by simp [Frame.next, current]
    rw [same]
    exact .flat ungrouped current contents
  | @grouped element elements inProgress grouped current finished single contents unfinished =>
    have begun : frame.next.current = some [] := by simp [Frame.next, current]
    have ended : frame.next.finished.reverse =
        (elements ++ [inProgress.reverse]).map (.branch element) := by
      simp [Frame.next, current, finished, elementNode, grouped]
    refine .grouped (by simpa using grouped) begun ended ?_ ?_ .nil
    · intro undivided unflagged
      rw [Frame.next_bound] at undivided unflagged
      rcases divided with separated | flagged
      · exact absurd undivided separated
      · exact absurd flagged (by simp [unflagged])
    · simpa [or_imp, forall_and] using ⟨contents, unfinished⟩

/-- A bound ends as a branch of the declared form: with the element in progress behind the
finished ones, or, where that is left out, with these, which are then not none. -/
theorem Shaped.conforms (shaped : frame.Shaped nesting) (prune : Bool) :
    nesting.Conforms frame.bound (frame.branch prune) := by
  cases shaped with
  | flat ungrouped current contents =>
    have branch : frame.branch prune = .branch frame.bound.name frame.finished.reverse := by
      simp [Frame.branch, node, current]
    rw [branch]
    exact .flat ungrouped contents
  | @grouped element elements inProgress grouped current finished single contents unfinished =>
    by_cases omitted : prune && inProgress.isEmpty && !frame.finished.isEmpty
    · have branch : frame.branch prune =
          .branch frame.bound.name (elements.map (.branch element)) := by
        simp [Frame.branch, node, current, omitted, finished]
      have filled : elements ≠ [] := by
        rintro rfl
        have only : frame.finished = [] := by simpa using finished
        simp [only] at omitted
      rw [branch]
      exact .grouped grouped filled (fun undivided unflagged =>
        absurd (single undivided unflagged) filled) contents
    · have branch : frame.branch prune =
          .branch frame.bound.name ((elements ++ [inProgress.reverse]).map (.branch element)) := by
        simp [Frame.branch, Frame.next, node, current, omitted, finished, elementNode, grouped]
      rw [branch]
      refine .grouped grouped (by simp) ?_ ?_
      · intro undivided unflagged
        simp [single undivided unflagged]
      · simpa [or_imp, forall_and] using ⟨contents, unfinished⟩

/-- A bound that is received is put in as a branch of the declared form. -/
theorem Shaped.receive (shaped : frame.Shaped nesting) {start : String}
    (declared : nesting.opened? start = some child.bound) (inside : child.Shaped nesting) :
    (frame.receive child).Shaped nesting := by
  have pushed := shaped.push (.bound declared (inside.conforms false) .nil)
  unfold Frame.receive
  split
  · rename_i divides
    exact pushed.next (.inr (by simpa using (Bool.and_eq_true_iff.mp divides).2))
  · exact pushed

end Frame

namespace Building

variable {nesting : Nesting} {pending : List Token} {building : Building Unit}

/-- A token keeps what the open bounds hold in the declared form. The cases are what a token can do:
it opens a bound, closes the innermost one, divides it, is broken, or stands for itself. -/
theorem shaped_take
    (shaped : ∀ frame ∈ building.top :: building.outer, frame.Shaped nesting)
    (stacked : Stacked nesting pending (building.top :: building.outer)) (token : Token) :
    ∀ frame ∈ (building.take nesting .none token).top :: (building.take nesting .none token).outer,
      frame.Shaped nesting := by
  have taken := take_taken stacked token
  generalize nesting.role (nesting.innermost? pending) token = role at taken
  generalize building.take nesting .none token = next at taken ⊢
  obtain ⟨top, outer⟩ := List.forall_mem_cons.mp shaped
  cases taken with
  | opens bound opened =>
    exact List.forall_mem_cons.mpr ⟨Frame.start_shaped nesting bound (some token), shaped⟩
  | closes opener earlier parent around innermost outerEq unopened closes =>
    rw [innermost] at stacked
    rw [outerEq] at outer
    obtain ⟨parentShaped, others⟩ := List.forall_mem_cons.mp outer
    cases stacked with
    | inner opened _ _ _ =>
      exact List.forall_mem_cons.mpr ⟨parentShaped.receive opened top, others⟩
  | divides unopened divides =>
    have separated : building.top.bound.split ≠ none := by
      intro unsplit
      simp [Bound.isSplitBy, unsplit] at divides
    exact List.forall_mem_cons.mpr ⟨top.next (.inl separated), outer⟩
  | stray bound unopened closed => exact shaped
  | stands unopened undivided unclosed =>
    exact List.forall_mem_cons.mpr ⟨top.push (.leaf .nil), outer⟩

/-- By induction over the tokens, every open bound has the form that it declares at every point of
the text. What the brackets say goes along, since a closing token must find the start of its bound
in place. -/
theorem shaped_foldl_take {brackets : Brackets}
    (shaped : ∀ frame ∈ building.top :: building.outer, frame.Shaped nesting)
    (stacked : Stacked nesting brackets.pending (building.top :: building.outer))
    (tokens : List Token) :
    ∀ frame ∈ (tokens.foldl (take nesting .none) building).top ::
        (tokens.foldl (take nesting .none) building).outer, frame.Shaped nesting := by
  induction tokens generalizing building brackets with
  | nil => exact shaped
  | cons token tokens inductionHypothesis =>
    exact inductionHypothesis (shaped_take shaped stacked token) (stacked.take token)

/-- Closing what is still open ends with a branch of the root. By induction over the frames around:
the branch of each bound conforms to it, and is part of the contents of the next one. -/
theorem finish_conforms {top : Frame} {outer : List Frame}
    (shaped : ∀ frame ∈ top :: outer, frame.Shaped nesting)
    (stacked : Stacked nesting pending (top :: outer)) (ledger : Ledger Unit) :
    nesting.Conforms nesting.root (finish .none top outer ledger).1 := by
  induction outer generalizing top pending ledger with
  | nil =>
    cases stacked with
    | root bound _ =>
      rw [finish, Frame.finish_none, ← bound]
      exact (shaped top List.mem_cons_self).conforms true
    | inner _ _ _ around => cases around
  | cons parent outer inductionHypothesis =>
    obtain ⟨inside, parentShaped, others⟩ := by simpa only [List.forall_mem_cons] using shaped
    cases stacked with
    | inner opened _ _ around =>
      have pushed := parentShaped.push (.bound opened (inside.conforms false) .nil)
      simp only [finish, Frame.finish_none]
      exact inductionHypothesis (List.forall_mem_cons.mpr ⟨pushed, others⟩)
        (around.replaceTop (by simp) (by simp) (by simp)) _

end Building

/-! ## The last element of the root -/

namespace Nesting

/-- The last element of the root has contents, unless it is the only one. -/
def EndsFilled (nesting : Nesting) (tree : Tree) : Prop :=
  ∀ element earlier, nesting.root.element = some element →
    tree = .branch nesting.root.name (earlier ++ [.branch element []]) → earlier = []

/-- The tokens end in a separator of the root, apart from closing tokens that close nothing,
and without it the root has just the given elements. -/
def EndsInSeparator (nesting : Nesting) (tokens : List Token) (elements : List Tree) : Prop :=
  ∃ front separator strays, tokens = front ++ separator :: strays ∧
    (nesting.brackets front).pending = [] ∧ nesting.role none separator = .divides ∧
    (∀ stray ∈ strays, nesting.role none stray = .stray) ∧
    (nesting.buildWith .none () front).value = .branch nesting.root.name elements

end Nesting

namespace Frame

variable {frame : Frame} {contents : List Tree}

/-- Behind a child, the element in progress is not empty. -/
theorem push_current_ne (frame : Frame) (child : Tree) : (frame.push child).current ≠ some [] := by
  cases current : frame.current <;> simp [push, current]

/-- An element in progress is left out only when it is empty and not the only one. -/
theorem branch_of_kept (current : frame.current = some contents)
    (kept : contents ≠ [] ∨ frame.finished = []) (prune : Bool) :
    frame.branch prune =
      .branch frame.bound.name (frame.finished.reverse ++ [frame.elementNode contents]) := by
  have stays : ¬ (prune && contents.isEmpty && !frame.finished.isEmpty) = true := by
    rcases kept with filled | only
    · simp [filled]
    · simp [only]
  simp [branch, next, node, current, stays]

/-- An empty element in progress is left out of the branch of the root, when others came before
it. -/
theorem branch_of_omitted (current : frame.current = some []) (others : frame.finished ≠ []) :
    frame.branch true = .branch frame.bound.name frame.finished.reverse := by
  simp [branch, node, current, others]

/-- Where the last of several elements is empty, it is the one that ended last: the element in
progress was left out behind it. -/
theorem finished_of_branch {earlier : List Tree} {name element : String}
    (current : frame.current = some contents)
    (branch : frame.branch true = .branch name (earlier ++ [.branch element []]))
    (others : earlier ≠ []) :
    contents = [] ∧ frame.finished = .branch element [] :: earlier.reverse := by
  by_cases kept : contents ≠ [] ∨ frame.finished = []
  · rw [branch_of_kept current kept true] at branch
    obtain ⟨-, children⟩ := Tree.branch.inj branch
    obtain ⟨finished, node⟩ := List.append_inj' children rfl
    have empty : contents = [] := by
      simpa [elementNode] using (Tree.branch.inj (List.singleton_inj.mp node)).2
    have only : frame.finished = [] := kept.resolve_left (not_not.mpr empty)
    rw [only] at finished
    exact absurd finished.symm others
  · obtain ⟨empty, filled⟩ := not_or.mp kept
    obtain rfl : contents = [] := Decidable.not_not.mp empty
    rw [branch_of_omitted current filled] at branch
    obtain ⟨-, children⟩ := Tree.branch.inj branch
    refine ⟨rfl, ?_⟩
    rw [← List.reverse_reverse frame.finished, children]
    simp

/-- The element that ended last was empty only if nothing was put in behind the others. It ended
just now, so it was the one in progress. -/
theorem next_finished_eq {name : String} {earlier : List Tree}
    (begun : frame.next.current = some [])
    (ended : frame.next.finished = .branch name [] :: earlier) :
    frame.current = some [] ∧ frame.finished = earlier := by
  cases current : frame.current with
  | none => simp [next, current] at begun
  | some contents =>
    simp only [next, current, elementNode, List.cons.injEq, Tree.branch.injEq,
      List.reverse_eq_nil_iff] at ended
    obtain ⟨⟨-, rfl⟩, finished⟩ := ended
    exact ⟨rfl, finished⟩

/-- An element that ends behind a child is not empty. -/
theorem next_push_finished {child : Tree} {name : String} {earlier : List Tree}
    (begun : (frame.push child).next.current = some []) :
    (frame.push child).next.finished ≠ .branch name [] :: earlier :=
  fun ended => push_current_ne frame child (next_finished_eq begun ended).1

/-- Behind a bound that was just received, no empty element has ended. The branch of the bound is in
the element in progress, or in the one that it ended. -/
theorem receive_finished {parent child : Frame} {name : String} {earlier : List Tree}
    (begun : (parent.receive child).current = some []) :
    (parent.receive child).finished ≠ .branch name [] :: earlier := by
  unfold receive at begun ⊢
  split
  · rename_i divides
    rw [if_pos divides] at begun
    exact next_push_finished begun
  · rename_i joins
    rw [if_neg joins] at begun
    exact absurd begun (push_current_ne parent _)

end Frame

namespace Building

variable {nesting : Nesting} {pending : List Token}

/-- Only the root is open when nothing is around the innermost bound. -/
theorem Stacked.pending_eq_nil {top : Frame} (stacked : Stacked nesting pending [top]) :
    pending = [] := by
  cases stacked with
  | root _ _ => rfl
  | inner _ _ _ around => cases around

/-- What is built is the branch of the root as it is in the end: as all tokens left it when no
other bound is open, and else with the bound in it that was open there. -/
theorem finish_eq_branch {top : Frame} {outer : List Frame}
    (stacked : Stacked nesting pending (top :: outer)) (ledger : Ledger Unit) :
    ∃ frame, (finish .none top outer ledger).1 = frame.branch true ∧
      frame.bound = nesting.root ∧ frame.Leveled ∧
      (outer = [] ∧ frame = top ∨ ∃ parent child, frame = Frame.push parent child) := by
  induction outer generalizing top pending ledger with
  | nil =>
    cases stacked with
    | root bound leveled => exact ⟨top, by simp [finish], bound, leveled, .inl ⟨rfl, rfl⟩⟩
    | inner _ _ _ around => cases around
  | cons parent outer inductionHypothesis =>
    cases stacked with
    | inner opened _ _ around =>
      have pushed : Stacked nesting _ (parent.push (top.branch false) :: outer) :=
        around.replaceTop (by simp) (by simp) (by simp)
      simp only [finish, Frame.finish_none]
      obtain ⟨frame, built, bound, leveled, last⟩ := inductionHypothesis pushed _
      refine ⟨frame, built, bound, leveled, .inr ?_⟩
      rcases last with ⟨-, rfl⟩ | filled
      · exact ⟨parent, top.branch false, rfl⟩
      · exact filled

end Building

namespace Nesting

/-- While only the root is open, the innermost frame is the root's. -/
theorem filled_top_bound (nesting : Nesting) {tokens : List Token}
    (outermost : (nesting.filled tokens).outer = []) :
    (nesting.filled tokens).top.bound = nesting.root := by
  have stacked := nesting.filled_stacked tokens
  rw [outermost] at stacked
  have bound := stacked.bound
  rw [stacked.pending_eq_nil] at bound
  exact bound.symm

/-- While only the root is open, its branch is the tree. -/
theorem value_of_outermost (nesting : Nesting) {tokens : List Token}
    (outermost : (nesting.filled tokens).outer = []) :
    (nesting.buildWith .none () tokens).value = (nesting.filled tokens).top.branch true := by
  rw [nesting.buildWith_none_eq tokens, outermost, Building.finish, Frame.finish_none]

/-- Where only the root is open, and its last element has ended without contents and is not the
only one, a separator has ended it.

Proof: by induction from the last token backwards. A start leaves another bound open, and a leaf
or a bound that was received is in the last element; a closing token that closes nothing
changes no frame. So what is left is a separator, and the element that it ended was empty. -/
theorem endsInSeparator_of_filled {nesting : Nesting} {tokens : List Token} {name : String}
    {earlier : List Tree} (outermost : (nesting.filled tokens).outer = [])
    (begun : (nesting.filled tokens).top.current = some [])
    (ended : (nesting.filled tokens).top.finished = .branch name [] :: earlier)
    (others : earlier ≠ []) : nesting.EndsInSeparator tokens earlier.reverse := by
  induction tokens using List.reverseRecOn with
  | nil => cases element : nesting.root.element <;>
      simp [Nesting.filled, Nesting.begun, Frame.start] at ended
  | append_singleton front token inductionHypothesis =>
    have stacked := nesting.filled_stacked front
    have taken := Building.take_taken stacked token
    have step : nesting.filled (front ++ [token]) =
        (nesting.filled front).take nesting .none token := by
      simp [Nesting.filled]
    rw [step] at outermost begun ended
    generalize roleEq : nesting.role (nesting.innermost? (nesting.brackets front).pending) token =
      role at taken
    generalize (nesting.filled front).take nesting .none token = next at taken outermost begun ended
    cases taken with
    | opens bound opened => simp at outermost
    | closes opener pending parent around innermost outer unopened closes =>
      exact absurd ended (Frame.receive_finished begun)
    | divides unopened divides =>
      have outer : (nesting.filled front).outer = [] := outermost
      obtain ⟨empty, finished⟩ := Frame.next_finished_eq begun ended
      have omitted : (nesting.filled front).top.branch true =
          .branch nesting.root.name earlier.reverse := by
        rw [Frame.branch_of_omitted empty (finished ▸ others), finished,
          nesting.filled_top_bound outer]
      rw [outer] at stacked
      have pending := stacked.pending_eq_nil
      rw [pending] at roleEq
      exact ⟨front, token, [], rfl, pending, roleEq, by simp,
        (nesting.value_of_outermost outer).trans omitted⟩
    | stray bound unopened closed =>
      have outer : (nesting.filled front).outer = [] := outermost
      rw [outer] at stacked
      rw [stacked.pending_eq_nil] at roleEq
      obtain ⟨before, separator, strays, rfl, closes, divides, unmatched, built⟩ :=
        inductionHypothesis outermost begun ended
      refine ⟨before, separator, strays ++ [token], by simp, closes, divides, ?_, built⟩
      simpa [or_imp, forall_and] using ⟨unmatched, roleEq⟩
    | stands unopened undivided unclosed =>
      exact absurd begun (Frame.push_current_ne _ _)

/-- If the last element of the root is empty and not the only one, a separator has ended it.

Proof: the root is left with an element in progress. If that had contents it would be the last
element, so it is empty; then no other bound is open, since closing it would have put its
branch in there, and the last element is the one that ended last. -/
theorem endsInSeparator_of_value {nesting : Nesting} {tokens : List Token} {element : String}
    {earlier : List Tree} (grouped : nesting.root.element = some element)
    (value : (nesting.buildWith .none () tokens).value =
      .branch nesting.root.name (earlier ++ [.branch element []])) (others : earlier ≠ []) :
    nesting.EndsInSeparator tokens earlier := by
  obtain ⟨frame, built, bound, leveled, last⟩ :=
    Building.finish_eq_branch (nesting.filled_stacked tokens) (nesting.filled tokens).ledger
  rw [nesting.buildWith_none_eq tokens, built] at value
  obtain ⟨contents, current⟩ : ∃ contents, frame.current = some contents := by
    rw [← Option.isSome_iff_exists, leveled, bound, grouped]
    rfl
  obtain ⟨rfl, finished⟩ := Frame.finished_of_branch current value others
  rcases last with ⟨outermost, rfl⟩ | ⟨parent, child, rfl⟩
  · have ended := endsInSeparator_of_filled outermost current finished (by simpa using others)
    rwa [List.reverse_reverse] at ended
  · exact absurd current (Frame.push_current_ne parent child)

/-- The trees that are built follow the declared bounds, and the last of several elements of the
root is empty only where the tokens end in a separator of it. -/
theorem buildWith_none_conforms (nesting : Nesting) (tokens : List Token) :
    nesting.Conforms nesting.root (nesting.buildWith .none () tokens).value ∧
      ∀ element earlier, nesting.root.element = some element →
        (nesting.buildWith .none () tokens).value =
          .branch nesting.root.name (earlier ++ [.branch element []]) →
        earlier = [] ∨ nesting.EndsInSeparator tokens earlier := by
  constructor
  · have begun : ∀ frame ∈ nesting.begun.top :: nesting.begun.outer, frame.Shaped nesting := by
      simpa [begun] using Frame.start_shaped nesting nesting.root none
    have shaped := Building.shaped_foldl_take begun nesting.begun_stacked tokens
    exact Building.finish_conforms shaped (nesting.filled_stacked tokens) _
  · intro element earlier grouped value
    by_cases only : earlier = []
    · exact .inl only
    · exact .inr (endsInSeparator_of_value grouped value only)

/-- A line, an empty one behind it, and a closing token that closes nothing. -/
def doubledNewline : List Token := ["a", "newline", "newline", "]"].map fun value => { value }

/-- Both newlines end a line, and the second one an empty line. -/
theorem doubledNewline_conforms :
    lines.Conforms lines.root (lines.buildWith .none () doubledNewline).value ∧
      lines.EndsInSeparator doubledNewline [.branch "line" [.leaf { value := "a" }]] := by
  obtain ⟨conforms, last⟩ := buildWith_none_conforms lines doubledNewline
  have built : (lines.buildWith .none () doubledNewline).value =
      .branch "program" ([.branch "line" [.leaf { value := "a" }]] ++ [.branch "line" []]) := rfl
  exact ⟨conforms, (last "line" _ rfl built).resolve_left (by simp)⟩

/-- The empty line is kept although it is not the only one. -/
theorem doubledNewline_endsEmpty :
    ¬ (lines.Conforms lines.root (lines.buildWith .none () doubledNewline).value ∧
      lines.EndsFilled (lines.buildWith .none () doubledNewline).value) := by
  rintro ⟨-, filled⟩
  have only := filled "line" [.branch "line" [.leaf { value := "a" }]] rfl rfl
  exact absurd only (by simp)

end Nesting

end Parlance
