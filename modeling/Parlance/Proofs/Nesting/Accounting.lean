import Parlance.Proofs.Nesting.Brackets
import Parlance.Proofs.Nesting.Document

/-!
# What becomes of every token

However broken its brackets are, a list of tokens is built into a tree that has each token
in one place or says with its branches that it was there. The leaves of the tree are the
tokens that stand for themselves, in their order: those that are no start and no closing
token of a declared bound and do not divide the elements of the innermost open bound. And
every start token has its own branch, also where the bound is never closed.

Names do not always tell the branch of a bound from that of an element, so bound branches
are counted by how the tree is put together: `Forest` goes through the children of a bound
level by level and lists the token that opened each branch. Where names do tell them apart,
counting names gives the same number.

The proof reads the frames of a building from the outside in. What they hold, flattened, are
the leaves and the openers of all tokens taken so far; each step adds at most one token at
the end, and closing a bound only moves its contents outwards.
-/

namespace Parlance

namespace Tree

mutual

/-- The names of the branches, each before those of its children. -/
def branches : Tree → List String
  | .leaf _ => []
  | .branch name children => name :: branchesAll children

/-- The names of the branches of several trees. -/
def branchesAll : List Tree → List String
  | [] => []
  | tree :: trees => tree.branches ++ branchesAll trees

end

end Tree

namespace Nesting

/-- Whether the token is a start. -/
def isStart (nesting : Nesting) (token : Token) : Bool := (nesting.opened? token.value).isSome

/-- Whether the token stands for itself: it is no start, no closing token, and does not
divide the elements of the innermost open bound. -/
def isPlain (nesting : Nesting) (brackets : Brackets) (token : Token) : Bool :=
  !nesting.isStart token && (nesting.closed? token.value).isNone &&
    !((nesting.innermost? brackets.pending).getD nesting.root).isSplitBy token.value

/-- Those of the tokens that stand for themselves, behind others with the given brackets. -/
def standing (nesting : Nesting) (brackets : Brackets) : List Token → List Token
  | [] => []
  | token :: tokens =>
    let others := nesting.standing (brackets.read nesting token) tokens
    if nesting.isPlain brackets token then token :: others else others

/-- The trees are children of a bound with the given elements, or with none: element
branches, or leaves and the branches of declared bounds. They have the given leaves, and
the branches of bounds in them were opened by the given tokens, both in the order of the
text. -/
inductive Forest (nesting : Nesting) :
    Option String → List Tree → List Token → List Token → Prop where
  | nil {element : Option String} : Forest nesting element [] [] []
  | leaf {token : Token} {trees : List Tree} {leaves openers : List Token}
    (rest : Forest nesting none trees leaves openers) :
    Forest nesting none (.leaf token :: trees) (token :: leaves) openers
  | bound {opener : Token} {bound : Bound} {children trees : List Tree}
    {inner leaves innerOpeners openers : List Token}
    (opened : nesting.opened? opener.value = some bound)
    (inside : Forest nesting bound.element children inner innerOpeners)
    (rest : Forest nesting none trees leaves openers) :
    Forest nesting none (.branch bound.name children :: trees) (inner ++ leaves)
      (opener :: innerOpeners ++ openers)
  | element {name : String} {children trees : List Tree}
    {inner leaves innerOpeners openers : List Token}
    (inside : Forest nesting none children inner innerOpeners)
    (rest : Forest nesting (some name) trees leaves openers) :
    Forest nesting (some name) (.branch name children :: trees) (inner ++ leaves)
      (innerOpeners ++ openers)

/-- The names of declared bounds can be told from those of elements and of the root. -/
structure TellsBounds (nesting : Nesting) (isBound : String → Bool) : Prop where
  bounds : ∀ start bound, nesting.opened? start = some bound → isBound bound.name = true
  elements : ∀ start bound element, nesting.opened? start = some bound →
    bound.element = some element → isBound element = false
  root : isBound nesting.root.name = false
  rootElements : ∀ element, nesting.root.element = some element → isBound element = false

namespace Forest

variable {nesting : Nesting} {element : Option String} {trees others : List Tree}
  {leaves openers moreLeaves moreOpeners : List Token}

/-- Children behind others have their leaves and openers behind the leaves and openers of those. By
induction over the first children. -/
theorem append (first : Forest nesting element trees leaves openers)
    (second : Forest nesting element others moreLeaves moreOpeners) :
    Forest nesting element (trees ++ others) (leaves ++ moreLeaves) (openers ++ moreOpeners) := by
  induction first with
  | nil => exact second
  | leaf _ inductionHypothesis => exact .leaf (inductionHypothesis second)
  | bound opened inside _ _ inductionHypothesis =>
    simpa using Forest.bound opened inside (inductionHypothesis second)
  | element inside _ _ inductionHypothesis =>
    simpa using Forest.element inside (inductionHypothesis second)

/-- The leaves by which a forest is described are the leaves of its trees. -/
theorem leavesAll_eq (forest : Forest nesting element trees leaves openers) :
    Tree.leavesAll trees = leaves := by
  induction forest with
  | nil => rfl
  | leaf _ inductionHypothesis => simp [Tree.leavesAll, Tree.leaves, inductionHypothesis]
  | bound _ _ _ insideHypothesis restHypothesis =>
    simp [Tree.leavesAll, Tree.leaves, insideHypothesis, restHypothesis]
  | element _ _ insideHypothesis restHypothesis =>
    simp [Tree.leavesAll, Tree.leaves, insideHypothesis, restHypothesis]

/-- Where names tell bounds from elements, there are as many branches with the name of a
bound as there are openers. -/
theorem countP_branchesAll (forest : Forest nesting element trees leaves openers)
    {isBound : String → Bool} (tells : nesting.TellsBounds isBound)
    (elementTold : ∀ name, element = some name → isBound name = false) :
    (Tree.branchesAll trees).countP isBound = openers.length := by
  induction forest with
  | nil => rfl
  | leaf _ inductionHypothesis =>
    simpa [Tree.branchesAll, Tree.branches] using inductionHypothesis elementTold
  | bound opened _ _ insideHypothesis restHypothesis =>
    have inside := insideHypothesis (tells.elements _ _ · opened)
    have rest := restHypothesis elementTold
    simp only [Tree.branchesAll, Tree.branches, List.cons_append, List.countP_cons,
      List.countP_append, inside, rest, tells.bounds _ _ opened, if_true, List.length_cons,
      List.length_append]
  | element _ _ insideHypothesis restHypothesis =>
    have inside := insideHypothesis (by simp)
    have rest := restHypothesis elementTold
    simp [Tree.branchesAll, Tree.branches, inside, rest, elementTold _ rfl]

end Forest

end Nesting

open Nesting

namespace Frame

/-- The frame has these leaves, and branches of bounds opened by these tokens: those of its
finished children, and behind them those of the element in progress. -/
def Holds (nesting : Nesting) (frame : Frame) (leaves openers : List Token) : Prop :=
  ∃ done doneOpeners inside insideOpeners,
    Forest nesting frame.bound.element frame.finished.reverse done doneOpeners ∧
      Forest nesting none (frame.current.getD []).reverse inside insideOpeners ∧
      leaves = done ++ inside ∧ openers = doneOpeners ++ insideOpeners

variable {nesting : Nesting} {frame : Frame} {leaves openers more moreOpeners : List Token}

/-- A bound that has just begun holds no leaves, and no bounds were opened in it. -/
theorem start_holds (nesting : Nesting) (bound : Bound) (opener : Option Token) :
    (start bound opener).Holds nesting [] [] := by
  have empty : ((start bound opener).current.getD []).reverse = [] := by
    cases element : bound.element <;> simp [start, element]
  exact ⟨[], [], [], [], .nil, by rw [empty]; exact .nil, rfl, rfl⟩

/-- A frame without elements holds its finished children. Nothing is in progress, so it holds
nothing else. -/
theorem holds_of_none (leveled : frame.Leveled) (current : frame.current = none) :
    frame.Holds nesting leaves openers ↔
      Forest nesting none frame.finished.reverse leaves openers := by
  have element : frame.bound.element = none := by simpa [Leveled, current] using leveled.symm
  simp only [Holds, element, current, Option.getD_none, List.reverse_nil]
  constructor
  · rintro ⟨_, _, _, _, finished, inProgress, rfl, rfl⟩
    cases inProgress
    simpa using finished
  · intro finished
    exact ⟨_, _, [], [], finished, .nil, by simp, by simp⟩

/-- What is put in adds its leaves and openers at the end. It goes into the element in progress
where the bound has elements, and to the finished children otherwise. -/
theorem Holds.push (holds : frame.Holds nesting leaves openers) (leveled : frame.Leveled)
    {child : Tree} (added : Forest nesting none [child] more moreOpeners) :
    (frame.push child).Holds nesting (leaves ++ more) (openers ++ moreOpeners) := by
  cases current : frame.current with
  | none =>
    have pushedLeveled : (frame.push child).Leveled := by simpa [Leveled] using leveled
    rw [holds_of_none pushedLeveled (by simp [Frame.push, current])]
    simpa [Frame.push, current] using ((holds_of_none leveled current).mp holds).append added
  | some contents =>
    obtain ⟨_, _, _, _, finished, inProgress, rfl, rfl⟩ := holds
    rw [current] at inProgress
    have grown := inProgress.append added
    simp only [Frame.push, current, List.append_assoc]
    exact ⟨_, _, _, _, finished, by simpa using grown, rfl, rfl⟩

/-- Ending the element in progress moves its leaves and openers to the finished ones. The new
element holds nothing yet. -/
theorem Holds.next (holds : frame.Holds nesting leaves openers) (leveled : frame.Leveled) :
    frame.next.Holds nesting leaves openers := by
  cases current : frame.current with
  | none => simpa [Frame.next, current] using holds
  | some contents =>
    have grouped : frame.bound.element.isSome := by simpa [Leveled, current] using leveled.symm
    obtain ⟨name, element⟩ := Option.isSome_iff_exists.mp grouped
    obtain ⟨_, _, _, _, finished, inProgress, rfl, rfl⟩ := holds
    rw [current] at inProgress
    rw [element] at finished
    have grown := finished.append (.element inProgress .nil)
    simp only [Frame.next, current]
    refine ⟨_, _, [], [], ?_, .nil, (List.append_nil _).symm, (List.append_nil _).symm⟩
    simpa [elementNode, element] using grown

/-- The branch of a finished bound holds what the frame held; an element that is left out
holds nothing. -/
theorem Holds.branch (holds : frame.Holds nesting leaves openers) (leveled : frame.Leveled)
    (prune : Bool) :
    ∃ children, frame.branch prune = .branch frame.bound.name children ∧
      Forest nesting frame.bound.element children leaves openers := by
  cases current : frame.current with
  | none =>
    have element : frame.bound.element = none := by simpa [Leveled, current] using leveled.symm
    refine ⟨frame.finished.reverse, by simp [Frame.branch, current, node], ?_⟩
    rw [element]
    exact (holds_of_none leveled current).mp holds
  | some contents =>
    simp only [Frame.branch, current]
    split
    · rename_i omitted
      obtain ⟨_, _, _, _, finished, inProgress, rfl, rfl⟩ := holds
      obtain rfl : contents = [] := by simp_all
      rw [current] at inProgress
      cases inProgress
      exact ⟨_, rfl, by simpa using finished⟩
    · obtain ⟨_, _, _, _, finished, inProgress, rfl, rfl⟩ := holds.next leveled
      have begun : frame.next.current.getD [] = [] := by simp [Frame.next, current]
      rw [begun] at inProgress
      cases inProgress
      exact ⟨frame.next.finished.reverse, by simp [node], by simpa using finished⟩

/-- A bound that is received adds what it held, and its opener before that. Its branch is put in as
a child, and where that ends an element, the element keeps it. -/
theorem Holds.receive {child : Frame} {opener : Token}
    (holds : frame.Holds nesting leaves openers) (leveled : frame.Leveled)
    (opened : nesting.opened? opener.value = some child.bound)
    (inside : child.Holds nesting more moreOpeners) (childLeveled : child.Leveled) :
    (frame.receive child).Holds nesting (leaves ++ more) (openers ++ opener :: moreOpeners) := by
  obtain ⟨children, branch, forest⟩ := inside.branch childLeveled false
  have added : Forest nesting none [child.branch false] more (opener :: moreOpeners) := by
    simpa [branch] using Forest.bound opened forest .nil
  have pushed := holds.push leveled added
  unfold Frame.receive
  split
  · exact pushed.next (by simpa [Leveled] using leveled)
  · exact pushed

end Frame

namespace Building

/-- The frames, innermost first, hold these leaves and openers, read from the outside in;
the token that opened a frame comes before what the frame holds. -/
inductive Held (nesting : Nesting) :
    List Token → List Frame → List Token → List Token → Prop where
  | root {frame : Frame} {leaves openers : List Token}
    (holds : frame.Holds nesting leaves openers) : Held nesting [] [frame] leaves openers
  | inner {opener : Token} {pending : List Token} {frame : Frame} {frames : List Frame}
    {leaves openers before beforeOpeners : List Token}
    (outer : Held nesting pending frames before beforeOpeners)
    (holds : frame.Holds nesting leaves openers) :
    Held nesting (opener :: pending) (frame :: frames) (before ++ leaves)
      (beforeOpeners ++ opener :: openers)

variable {nesting : Nesting} {pending : List Token} {top frame : Frame} {outer : List Frame}
  {leaves openers more moreOpeners : List Token}

/-- What is added to the innermost frame is added at the end. -/
theorem Held.replaceTop (held : Held nesting pending (top :: outer) leaves openers)
    (grown : ∀ leaves openers, top.Holds nesting leaves openers →
      frame.Holds nesting (leaves ++ more) (openers ++ moreOpeners)) :
    Held nesting pending (frame :: outer) (leaves ++ more) (openers ++ moreOpeners) := by
  cases held with
  | root holds => exact .root (grown _ _ holds)
  | inner outer holds => simpa using Held.inner outer (grown _ _ holds)

/-- Closing a bound moves what it held outwards. Nothing is lost on the way, and the order is that
of the text. -/
theorem Held.receive {opener : Token} {parent : Frame}
    (held : Held nesting (opener :: pending) (top :: parent :: outer) leaves openers)
    (stacked : Stacked nesting (opener :: pending) (top :: parent :: outer)) :
    Held nesting pending (parent.receive top :: outer) leaves openers := by
  cases held with
  | inner around inside =>
    cases stacked with
    | inner opened _ leveled outerStacked =>
      exact around.replaceTop fun _ _ holds =>
        holds.receive outerStacked.leveled opened inside leveled

/-- One token adds itself to the leaves if it stands for itself, and to the openers if it is
a start. -/
theorem Held.take {building : Building Unit} {brackets : Brackets}
    (held : Held nesting brackets.pending (building.top :: building.outer) leaves openers)
    (stacked : Stacked nesting brackets.pending (building.top :: building.outer))
    (token : Token) :
    Held nesting (brackets.read nesting token).pending
      ((building.take nesting .none token).top :: (building.take nesting .none token).outer)
      (leaves ++ if nesting.isPlain brackets token then [token] else [])
      (openers ++ if nesting.isStart token then [token] else []) := by
  have taken := take_taken stacked token
  unfold Brackets.read isPlain isStart
  rw [stacked.bound]
  generalize nesting.role (nesting.innermost? brackets.pending) token = role at taken ⊢
  generalize building.take nesting .none token = next at taken ⊢
  cases taken with
  | opens bound opened =>
    simpa [opened] using Held.inner held (Frame.start_holds nesting bound (some token))
  | closes opener earlier parent around pendingEq outer unopened closes =>
    rw [pendingEq, outer] at held stacked
    have closed := stacked.closed?_isSome
    rw [closes] at closed
    simpa [unopened, Option.isNone_eq_false_iff.mpr closed, pendingEq] using held.receive stacked
  | divides unopened divides =>
    have kept : Held nesting brackets.pending (building.top.next :: building.outer)
        (leaves ++ []) (openers ++ []) :=
      held.replaceTop fun _ _ holds => by simpa using holds.next stacked.leveled
    simpa [unopened, divides] using kept
  | stray bound unopened closed => simpa [unopened, closed] using held
  | stands unopened undivided unclosed =>
    have added : Forest nesting none [.leaf token] [token] [] := .leaf .nil
    have grown := held.replaceTop fun _ _ holds => holds.push stacked.leveled added
    simpa [unopened, undivided, unclosed] using grown

/-- All tokens add those that stand for themselves to the leaves, and the starts to the
openers. -/
theorem Held.foldl_take {building : Building Unit} {brackets : Brackets}
    (held : Held nesting brackets.pending (building.top :: building.outer) leaves openers)
    (stacked : Stacked nesting brackets.pending (building.top :: building.outer))
    (tokens : List Token) :
    Held nesting (tokens.foldl (Brackets.read nesting) brackets).pending
      ((tokens.foldl (Building.take nesting .none) building).top ::
        (tokens.foldl (Building.take nesting .none) building).outer)
      (leaves ++ nesting.standing brackets tokens)
      (openers ++ tokens.filter nesting.isStart) := by
  induction tokens generalizing building brackets leaves openers with
  | nil => simpa [standing] using held
  | cons token tokens inductionHypothesis =>
    have leavesEq : nesting.standing brackets (token :: tokens) =
        (if nesting.isPlain brackets token then [token] else []) ++
          nesting.standing (brackets.read nesting token) tokens := by
      rw [standing]
      split <;> rfl
    have openersEq : (token :: tokens).filter nesting.isStart =
        (if nesting.isStart token then [token] else []) ++ tokens.filter nesting.isStart := by
      rw [List.filter_cons]
      split <;> rfl
    rw [leavesEq, openersEq, ← List.append_assoc, ← List.append_assoc]
    exact inductionHypothesis (held.take stacked token) (stacked.take token)

/-- Closing what is still open moves everything into the branch of the root. By induction over
the frames around: the innermost branch goes into the next frame, behind what that frame holds
already. -/
theorem Held.finish (held : Held nesting pending (top :: outer) leaves openers)
    (stacked : Stacked nesting pending (top :: outer)) (ledger : Ledger Unit) :
    ∃ children, (Building.finish .none top outer ledger).1 = .branch nesting.root.name children ∧
      Forest nesting nesting.root.element children leaves openers := by
  induction outer generalizing top pending ledger leaves openers with
  | nil =>
    cases held with
    | root holds =>
      cases stacked with
      | root bound leveled =>
        obtain ⟨children, branch, forest⟩ := holds.branch leveled true
        exact ⟨children, by simp [Building.finish, branch, bound], bound ▸ forest⟩
    | inner around _ => cases around
  | cons parent outer inductionHypothesis =>
    cases stacked with
    | inner opened own leveled around =>
      cases held with
      | inner before inside =>
        obtain ⟨children, branch, forest⟩ := inside.branch leveled false
        have added := Forest.bound opened forest .nil
        rw [← branch] at added
        have pushed := before.replaceTop fun _ _ holds => holds.push around.leveled added
        simp only [Building.finish, Frame.finish_none]
        simpa using inductionHypothesis pushed
          (around.replaceTop (by simp) (by simp) (by simp)) _

end Building

namespace Nesting

/-- Whatever the tokens and the bounds are, the leaves of the tree that is built are the
tokens that stand for themselves, and the branches of bounds in it are those opened by the
start tokens, one for each. Where names tell bounds from elements and the root, there are as
many branches with the name of a bound as there are start tokens. -/
theorem buildWith_none_accounts (nesting : Nesting) (tokens : List Token) :
    (nesting.buildWith .none () tokens).value.leaves = nesting.standing {} tokens ∧
      (∃ children,
        (nesting.buildWith .none () tokens).value = .branch nesting.root.name children ∧
          Forest nesting nesting.root.element children (nesting.standing {} tokens)
            (tokens.filter nesting.isStart)) ∧
      ∀ isBound, nesting.TellsBounds isBound →
        (nesting.buildWith .none () tokens).value.branches.countP isBound =
          tokens.countP nesting.isStart := by
  have begun : Building.Held nesting ({} : Brackets).pending
      (nesting.begun.top :: nesting.begun.outer) [] [] :=
    .root (Frame.start_holds nesting nesting.root none)
  have held := begun.foldl_take nesting.begun_stacked tokens
  obtain ⟨children, built, forest⟩ :=
    held.finish (nesting.filled_stacked tokens) (nesting.filled tokens).ledger
  have value : (nesting.buildWith .none () tokens).value = .branch nesting.root.name children := by
    rw [nesting.buildWith_none_eq tokens]
    exact built
  rw [value]
  refine ⟨forest.leavesAll_eq, ⟨children, rfl, forest⟩, ?_⟩
  intro isBound tells
  rw [Tree.branches, List.countP_cons, forest.countP_branchesAll tells tells.rootElements,
    tells.root, List.countP_eq_length_filter]
  simp

/-- A list whose block ends too early, a semicolon in the list and one behind it, and a
bracket that closes nothing; the block is never closed. -/
def brokenLines : List Token :=
  ["a", "begin", "[", "b", "end", ";", "]", ";", "newline", "]"].map fun value => { value }

/-- In lines, the names of blocks and lists are not those of elements or of the root. There are two
bounds and two kinds of elements to be looked at. -/
theorem lines_tellsBounds :
    lines.TellsBounds fun name => name = "block" || name = "list" where
  bounds start bound opened := by
    rcases lines_declared opened with rfl | rfl <;> rfl
  elements start bound element opened grouped := by
    rcases lines_declared opened with rfl | rfl
    · cases grouped
    · cases grouped
      rfl
  root := rfl
  rootElements element grouped := by
    cases grouped
    rfl

/-- Only the semicolon that divides the block is no leaf, and both bounds have their
branches. -/
theorem brokenLines_accounted :
    lines.TellsBounds (fun name => name = "block" || name = "list") ∧
      (lines.buildWith .none () brokenLines).value.leaves.map (·.value) =
        ["a", "b", ";", "newline"] ∧
      (lines.buildWith .none () brokenLines).value.branches.countP
        (fun name => name = "block" || name = "list") = 2 := by
  obtain ⟨leaves, -, counted⟩ := buildWith_none_accounts lines brokenLines
  refine ⟨lines_tellsBounds, ?_, ?_⟩
  · rw [leaves]
    decide
  · rw [counted _ lines_tellsBounds]
    decide

end Nesting

end Parlance
