import Parlance.Proofs.Diagnostic
import Parlance.Proofs.Expression.Run

/-!
# Where tokens of expressions come from

Resolving an expression makes no tokens, and reports only tokens that it was given. A
diagnostic about a leaf is about its token. A diagnostic about a branch is about the
last token of the branch or, when the branch has none, about the token seen before it;
for groups and arguments this may be one from outside. Only when nothing was seen at
all does a token without a place of its own stand in.
-/

namespace Parlance

namespace Tree

/-- The last token of the trees to visit is one of their tokens. By induction over the list of what
is to be visited, where a branch makes room for its children, the last one first. -/
theorem mem_leaves_of_lastTokenOf {trees : List Tree} {token : Token}
    (found : lastTokenOf trees = some token) : ∃ tree ∈ trees, token ∈ tree.leaves := by
  fun_induction lastTokenOf trees with
  | case1 => simp at found
  | case2 first rest => exact ⟨.leaf first, by simp, by simp_all [leaves]⟩
  | case3 name children rest inductionHypothesis =>
    simp only [List.unattach_reverse, List.unattach_attach] at inductionHypothesis
    obtain ⟨tree, member, inside⟩ := inductionHypothesis found
    rcases List.mem_append.mp member with child | later
    · have among := mem_leavesAll.mpr ⟨tree, List.mem_reverse.mp child, inside⟩
      exact ⟨.branch name children, by simp, among⟩
    · exact ⟨tree, List.mem_cons_of_mem _ later, inside⟩

/-- The last token of a tree is one of its tokens. -/
theorem mem_leaves_of_lastToken? {tree : Tree} {token : Token}
    (found : tree.lastToken? = some token) : token ∈ tree.leaves := by
  obtain ⟨_, member, inside⟩ := mem_leaves_of_lastTokenOf found
  rwa [List.mem_singleton.mp member] at inside

end Tree

namespace Expressions

/-- What can be reported where the tokens of trees have the given property: such a
token, or one that stands in when there is none. -/
def Site (holds : Token → Prop) (token : Token) : Prop := holds token ∨ token = {}

variable {holds : Token → Prop}

/-- The token that a diagnostic about a tree points at. It is the last token of the tree, or the one
seen last if the tree has none, or no token of the text at all. -/
theorem site_holds {tree : Tree} {seen : Option Token}
    (tokens : ∀ token ∈ tree.leaves, holds token) (sites : ∀ token ∈ seen, Site holds token) :
    Site holds (site tree seen) := by
  unfold site
  cases last : tree.lastToken? with
  | some token => exact .inl (tokens token (Tree.mem_leaves_of_lastToken? last))
  | none =>
    cases seen with
    | some token => exact sites token rfl
    | none => exact .inr rfl

/-- The token seen last behind a tree. -/
theorem seen_holds {tree : Tree} {seen : Option Token}
    (tokens : ∀ token ∈ tree.leaves, holds token) (sites : ∀ token ∈ seen, Site holds token) :
    ∀ token ∈ tree.lastToken?.or seen, Site holds token := by
  intro token found
  cases last : tree.lastToken? with
  | some other =>
    obtain rfl : other = token := by simpa [last] using found
    exact .inl (tokens other (Tree.mem_leaves_of_lastToken? last))
  | none => exact sites token (by simpa [last] using found)

/-! ## The stack -/

/-- A token or tree that is grafted on a tree adds its tokens and no others. -/
theorem graft_holds (expressions : Expressions) (precedence : Int) (make : Tree → Tree)
    (added : List Token) (adds : ∀ tree, (make tree).leaves = tree.leaves ++ added) (spine : Nat)
    {tree : Tree} (tokens : ∀ token ∈ tree.leaves, holds token)
    (addedTokens : ∀ token ∈ added, holds token) :
    ∀ token ∈ (expressions.graft precedence make spine tree).1.leaves, holds token := by
  rw [expressions.graft_leaves precedence make added adds]
  exact List.forall_mem_append.mpr ⟨tokens, addedTokens⟩

/-- An operator adds its token to the stack, or is reported. A suffix operator is grafted into the
operand below it, which adds its own token to the leaves and no other. -/
theorem pushOperator_holds (expressions : Expressions) {stack : List Item} {leaf : Token}
    (operator : Operator) (tokens : ∀ token ∈ stackLeaves stack, holds token) (own : holds leaf) :
    (∀ token ∈ stackLeaves (expressions.pushOperator stack leaf operator).value, holds token) ∧
      ∀ diagnostic ∈ (expressions.pushOperator stack leaf operator).diagnostics,
        diagnostic.About holds := by
  have pending : ∀ token ∈ stackLeaves (.pending leaf operator :: stack), holds token :=
    List.forall_mem_append.mpr ⟨tokens, by simpa [Item.leaves] using own⟩
  unfold pushOperator
  split
  · exact ⟨pending, by simp⟩
  · exact ⟨pending, by simp⟩
  · rename_i tree spine below _ _
    obtain ⟨belowTokens, treeTokens⟩ := List.forall_mem_append.mp tokens
    refine ⟨List.forall_mem_append.mpr ⟨belowTokens, ?_⟩, by simp⟩
    exact graft_holds expressions operator.precedence
      (fun operand => .branch expressions.names.unaryLeft [operand, .leaf leaf]) [leaf]
      (fun _ => by simp [Tree.leaves, Tree.leavesAll]) spine treeTokens (by simpa using own)
  · exact ⟨pending, by simp⟩
  · exact ⟨tokens, by simpa using Problem.missingLeftOperand.diagnose_about own⟩

/-- An operand adds its tokens to the stack; operators that find no left operand are
reported. -/
theorem pushOperand_holds (expressions : Expressions) {stack : List Item} {tree : Tree}
    {spine : Nat} (tokens : ∀ token ∈ stackLeaves stack, holds token)
    (own : ∀ token ∈ tree.leaves, holds token) :
    (∀ token ∈ stackLeaves (expressions.pushOperand stack tree spine).value, holds token) ∧
      ∀ diagnostic ∈ (expressions.pushOperand stack tree spine).diagnostics,
        diagnostic.About holds := by
  fun_induction pushOperand expressions stack tree spine with
  | case1 leaf operator tree spine isBinary left leftSpine below grafted depth equal =>
    obtain ⟨others, waiting⟩ := List.forall_mem_append.mp tokens
    obtain ⟨belowTokens, leftTokens⟩ := List.forall_mem_append.mp others
    refine ⟨List.forall_mem_append.mpr ⟨belowTokens, ?_⟩, by simp⟩
    have added : ∀ token ∈ leaf :: tree.leaves, holds token :=
      List.forall_mem_cons.mpr ⟨waiting leaf (by simp [Item.leaves]), own⟩
    have result := graft_holds expressions operator.precedence
      (fun operand => .branch expressions.names.binary [operand, .leaf leaf, tree])
      (leaf :: tree.leaves) (fun _ => by simp [Tree.leaves, Tree.leavesAll]) leftSpine leftTokens
      added
    rwa [equal] at result
  | case2 leaf operator below tree spine isBinary noOperand inductionHypothesis =>
    obtain ⟨belowTokens, waiting⟩ := List.forall_mem_append.mp tokens
    obtain ⟨kept, about⟩ := inductionHypothesis belowTokens own
    have reported := Problem.missingLeftOperand.diagnose_about
      (waiting leaf (by simp [Item.leaves]))
    exact ⟨kept, List.forall_mem_cons.mpr ⟨reported, about⟩⟩
  | case3 leaf operator below tree spine notBinary inductionHypothesis =>
    obtain ⟨belowTokens, waiting⟩ := List.forall_mem_append.mp tokens
    have joined : (Tree.branch expressions.names.unaryRight [.leaf leaf, tree]).leaves =
        leaf :: tree.leaves := by
      simp [Tree.leaves, Tree.leavesAll]
    refine inductionHypothesis belowTokens ?_
    rw [joined]
    exact List.forall_mem_cons.mpr ⟨waiting leaf (by simp [Item.leaves]), own⟩
  | case4 => exact ⟨List.forall_mem_append.mpr ⟨tokens, own⟩, by simp⟩

/-- A part adds its tokens to the stack, and only tokens of the stack or of the part are
reported. -/
theorem push_holds (expressions : Expressions) {stack : List Item} {part : Part}
    (tokens : ∀ token ∈ stackLeaves stack, holds token)
    (own : ∀ token ∈ part.leaves, holds token) :
    (∀ token ∈ stackLeaves (expressions.push stack part).value, holds token) ∧
      ∀ diagnostic ∈ (expressions.push stack part).diagnostics, diagnostic.About holds := by
  cases part with
  | operator leaf operator =>
    exact expressions.pushOperator_holds operator tokens (own leaf (by simp [Part.leaves]))
  | operand tree => exact expressions.pushOperand_holds tokens own
  | nothing => exact ⟨tokens, by simp [push]⟩

/-! ## Runs -/

/-- The tokens have the property, the token seen last can be reported, and so could
those of the diagnostics. -/
structure Given (holds : Token → Prop) (tokens : List Token) (seen : Option Token)
    (diagnostics : List Diagnostic) : Prop where
  tokens : ∀ token ∈ tokens, holds token
  sites : ∀ token ∈ seen, Site holds token
  about : ∀ diagnostic ∈ diagnostics, diagnostic.About (Site holds)

/-- Everything about the step was given. -/
abbrev Step.Given (holds : Token → Prop) (step : Step) : Prop :=
  Expressions.Given holds step.part.leaves step.seen step.diagnostics

/-- Everything about the run was given. -/
abbrev Working.Given (holds : Token → Prop) (working : Working) : Prop :=
  Expressions.Given holds (stackLeaves working.stack) working.seen working.diagnostics

/-- Everything about the resulting tree was given. -/
abbrev GivenTree (holds : Token → Prop) (result : Reported Tree) : Prop :=
  Given holds result.value.leaves none result.diagnostics

/-- Working off a step keeps to the tokens that are there. The tokens of the step are put on the
stack or reported. -/
theorem work_given (expressions : Expressions) {working : Working} {step : Step}
    (held : working.Given holds) (own : step.Given holds) :
    (expressions.work working step).Given holds := by
  obtain ⟨pushed, reported⟩ := expressions.push_holds held.tokens own.tokens
  rw [work_eq]
  refine ⟨pushed, own.sites, ?_⟩
  intro diagnostic member
  simp only [List.mem_append] at member
  rcases member with (before | about) | member
  · exact held.about diagnostic before
  · exact own.about diagnostic about
  · exact (reported diagnostic member).mono fun _ => .inl

/-- A tree that is left out with a report about a site. -/
theorem omitted_given (problem : Problem) {place : Token} (reached : Site holds place) :
    GivenTree holds { value := .empty, diagnostics := [problem.diagnose place] } :=
  ⟨by simp [Tree.empty, Tree.leaves, Tree.leavesAll], by simp,
    by simpa using problem.diagnose_about reached⟩

/-- Finishing a run keeps to the tokens that are there. What is left over on the stack is reported
at one of its own tokens. -/
theorem finish_given {stack : List Item} {seen : Option Token}
    (tokens : ∀ token ∈ stackLeaves stack, holds token)
    (sites : ∀ token ∈ seen, Site holds token) : GivenTree holds (finish stack seen) := by
  unfold finish
  split
  · exact ⟨by simp [Tree.empty, Tree.leaves, Tree.leavesAll], by simp, by simp⟩
  · exact ⟨by simpa [stackLeaves, Item.leaves] using tokens, by simp, by simp⟩
  · rename_i leaf _ _
    exact omitted_given _ (.inl (tokens leaf (by simp [stackLeaves, Item.leaves])))
  · have top := (List.forall_mem_append.mp tokens).2
    exact omitted_given _ (site_holds top sites)

/-- A run keeps to the tokens of its steps. By induction over the steps, the stack has tokens of the
run only, and so has what it is finished to. -/
theorem assemble_given (expressions : Expressions) {seen : Option Token} {steps : List Step}
    (sites : ∀ token ∈ seen, Site holds token) (own : ∀ step ∈ steps, step.Given holds) :
    GivenTree holds (expressions.assemble seen steps) := by
  have worked (working : Working) (held : working.Given holds) :
      (steps.foldl expressions.work working).Given holds := by
    induction steps generalizing working with
    | nil => exact held
    | cons step steps inductionHypothesis =>
      obtain ⟨first, others⟩ := List.forall_mem_cons.mp own
      exact inductionHypothesis others _ (expressions.work_given held first)
  have reached := worked { seen } ⟨by simp [stackLeaves], sites, by simp⟩
  have finished := finish_given reached.tokens reached.sites
  exact ⟨finished.tokens, finished.sites,
    List.forall_mem_append.mpr ⟨reached.about, finished.about⟩⟩

/-- A group keeps to the tokens of its run. Whether the group is refused or resolved, what is
reported is placed at one of its tokens, or at the token seen last. -/
theorem group_given (expressions : Expressions) (depth : Nat) {seen : Option Token}
    {elements : List Tree} (tokens : ∀ token ∈ Tree.leavesAll elements, holds token)
    (sites : ∀ token ∈ seen, Site holds token)
    (inner : ∀ (name : String) (contents : List Tree) (place : Token),
      elements = [.branch name contents] → Site holds place →
        ∀ step ∈ expressions.steps (depth + 1) (some place) contents, step.Given holds) :
    GivenTree holds (expressions.group depth seen elements) := by
  have place : Site holds (site (.branch expressions.names.expression elements) seen) :=
    site_holds tokens sites
  unfold group
  simp only
  split
  · rename_i name contents
    split
    · split
      · exact omitted_given _ place
      · exact expressions.assemble_given (by simpa using place)
          (inner name contents _ rfl place)
    · exact omitted_given _ place
  · exact omitted_given _ place
  · exact omitted_given _ place

/-- A call keeps to the tokens of its callee and its arguments. What is reported is placed at a
token of the arguments, or at the callee when they have none. -/
theorem call_given (expressions : Expressions) (depth : Nat) {callee : Token}
    {elements : List Tree} (tokens : ∀ token ∈ Tree.leavesAll elements, holds token)
    (own : holds callee)
    (inner : ∀ place, Site holds place →
      Given holds (Tree.leavesAll (expressions.arguments depth place elements).value) none
        (expressions.arguments depth place elements).diagnostics) :
    GivenTree holds (expressions.call depth callee elements) := by
  have place : Site holds (site (.branch expressions.names.expression elements) (some callee)) :=
    site_holds tokens (by simpa using .inl own)
  unfold call
  simp only
  split
  · exact omitted_given _ place
  · split
    · exact ⟨by simpa [Tree.leaves, Tree.leavesAll] using own, by simp, by simp⟩
    · have given := inner _ place
      refine ⟨?_, given.sites, given.about⟩
      simpa [Tree.leaves, Tree.leavesAll] using ⟨own, given.tokens⟩

/-- A leaf that is no callee keeps to its token. It is an operator, a value, or reported at its own
place. -/
theorem leafStep_given (expressions : Expressions) {token : Token} (own : holds token) :
    (expressions.leafStep token).Given holds := by
  have site : Site holds token := .inl own
  refine ⟨?_, by simpa [leafStep] using site, ?_⟩
  · cases kind : expressions.classify token <;>
      simp [leafStep, leafPart, kind, Part.leaves, Tree.leaves, own]
  · unfold leafStep
    simp only
    split
    · simpa using Problem.unexpectedToken.diagnose_about site
    · simp

/-- Arguments keep to their tokens and to the site of the call, as long as the runs in
them do. -/
theorem arguments_given (expressions : Expressions) (depth : Nat) {place : Token}
    {elements : List Tree} (tokens : ∀ token ∈ Tree.leavesAll elements, holds token)
    (reached : Site holds place)
    (inner : ∀ name contents, .branch name contents ∈ elements →
      (∀ token ∈ Tree.leavesAll contents, holds token) →
        ∀ step ∈ expressions.steps (depth + 1) (some place) contents, step.Given holds) :
    Given holds (Tree.leavesAll (expressions.arguments depth place elements).value) none
      (expressions.arguments depth place elements).diagnostics := by
  have reported := Problem.expectedExpression.diagnose_about reached
  induction elements with
  | nil =>
    rw [arguments]
    exact ⟨by simp [Tree.leavesAll], by simp, by simp⟩
  | cons element rest inductionHypothesis =>
    obtain ⟨inside, later⟩ := List.forall_mem_append.mp tokens
    have others := inductionHypothesis later fun name contents member =>
      inner name contents (List.mem_cons_of_mem _ member)
    cases element with
    | leaf token =>
      rw [arguments]
      exact ⟨others.tokens, by simp, List.forall_mem_cons.mpr ⟨reported, others.about⟩⟩
    | branch name contents =>
      rw [arguments]
      simp only
      split
      · have sites : ∀ token ∈ some place, Site holds token := by simpa using reached
        have argument := expressions.assemble_given sites
          (inner name contents List.mem_cons_self inside)
        refine ⟨?_, by simp, List.forall_mem_append.mpr ⟨argument.about, others.about⟩⟩
        simp only
        split
        · exact others.tokens
        · exact List.forall_mem_append.mpr ⟨argument.tokens, others.tokens⟩
      · exact ⟨others.tokens, by simp, List.forall_mem_cons.mpr ⟨reported, others.about⟩⟩

/-- The steps of a run keep to the tokens of the run and to the token seen before it.

Proof: the induction follows the run. What is reported inside a group or an argument is
reported about a token there or about the site of the wrapper, which was given too. -/
theorem steps_given (expressions : Expressions) (depth : Nat) (seen : Option Token)
    (run : List Tree) (tokens : ∀ token ∈ Tree.leavesAll run, holds token)
    (sites : ∀ token ∈ seen, Site holds token) :
    ∀ step ∈ expressions.steps depth seen run, step.Given holds := by
  induction run using run_induction expressions generalizing depth seen with
  | nothing =>
    rw [steps]
    simp
  | leaf token rest alone inductionHypothesis =>
    obtain ⟨own, later⟩ := List.forall_mem_append.mp tokens
    have held : holds token := own token (by simp [Tree.leaves])
    rw [expressions.steps_leaf depth seen token rest alone]
    exact List.forall_mem_cons.mpr ⟨expressions.leafStep_given held,
      inductionHypothesis depth (some token) later (by simpa using .inl held)⟩
  | call callee elements others symbol inner inductionHypothesis =>
    obtain ⟨own, later⟩ := List.forall_mem_append.mp tokens
    obtain ⟨inside, beyond⟩ := List.forall_mem_append.mp later
    have held : holds callee := own callee (by simp [Tree.leaves])
    have next : ∀ other ∈ some callee, Site holds other := by simpa using .inl held
    have call := expressions.call_given depth inside held fun place reached =>
      expressions.arguments_given depth inside reached fun name contents member contained =>
        inner name contents member (depth + 1) (some place) contained (by simpa using reached)
    rw [expressions.steps_call depth seen callee symbol]
    exact List.forall_mem_cons.mpr ⟨⟨call.tokens, next, call.about⟩,
      inductionHypothesis depth (some callee) beyond next⟩
  | group elements rest inner inductionHypothesis =>
    obtain ⟨inside, later⟩ := List.forall_mem_append.mp tokens
    have next := seen_holds inside sites
    have group := expressions.group_given depth inside sites fun name contents place only reached =>
      inner name contents (by simp [only]) (depth + 1) (some place)
        (by simpa [only, Tree.leavesAll, Tree.leaves] using inside) (by simpa using reached)
    rw [steps_group]
    exact List.forall_mem_cons.mpr ⟨⟨group.tokens, next, group.about⟩,
      inductionHypothesis depth _ later next⟩
  | stray name elements rest stray inductionHypothesis =>
    obtain ⟨inside, later⟩ := List.forall_mem_append.mp tokens
    have next := seen_holds inside sites
    have reported := Problem.unexpectedToken.diagnose_about (site_holds inside sites)
    rw [steps_stray_eq _ _ _ stray]
    exact List.forall_mem_cons.mpr ⟨⟨by simp [Part.leaves], next, by simpa using reported⟩,
      inductionHypothesis depth _ later next⟩

/-- Resolving a tree makes no tokens, and reports only tokens of the tree or the one that
stands in for none. -/
theorem resolve_given (expressions : Expressions) (tree : Tree)
    (tokens : ∀ token ∈ tree.leaves, holds token) :
    GivenTree holds (expressions.resolve tree) := by
  rw [← leavesAll_runOf tree] at tokens
  rw [resolve_eq]
  exact expressions.assemble_given (by simp)
    (expressions.steps_given 0 none (runOf tree) tokens (by simp))

end Expressions

end Parlance
