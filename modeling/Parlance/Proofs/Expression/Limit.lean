import Parlance.Proofs.Expression.Run

/-!
# The limit on nesting

Groups and argument lists are resolved up to a limit on how deep they are nested. Where the
limit is reached, something is left out, and this is reported with a code of its own, which
nothing else is reported with. So a tree about which the limit is not reported was resolved
as if there were none: a larger limit changes neither its expression nor what is reported.

How deep a run is nested is the number of wrappers around it. Every wrapper on the way down
to a run counts, whether or not it stands where it can be read, so the limit is not reported
about a tree in which no way down passes more wrappers than the limit allows.
-/

namespace Parlance

/-- Going down from the tree, from child to child, passes the nodes in turn. The tree itself
is not one of them. -/
inductive Tree.Path : Tree → List Tree → Prop where
  | here (tree : Tree) : Path tree []
  | down {tree child : Tree} {nodes : List Tree} (isChild : child ∈ tree.children)
    (deeper : Path child nodes) : Path tree (child :: nodes)

/-- Nothing is below a leaf. -/
theorem Tree.path_leaf_iff {token : Token} {nodes : List Tree} :
    (Tree.leaf token).Path nodes ↔ nodes = [] := by
  constructor
  · intro path
    cases path with
    | here => rfl
    | down isChild deeper => cases isChild
  · rintro rfl
    exact .here _

/-- The way down from a branch stops there, or leads on from one of the children. -/
theorem Tree.path_branch_iff {name : String} {children nodes : List Tree} :
    (Tree.branch name children).Path nodes ↔
      nodes = [] ∨ ∃ child ∈ children, ∃ rest, child.Path rest ∧ nodes = child :: rest := by
  constructor
  · intro path
    cases path with
    | here => exact .inl rfl
    | down isChild deeper => exact .inr ⟨_, isChild, _, deeper, rfl⟩
  · rintro (rfl | ⟨child, isChild, rest, deeper, rfl⟩)
    · exact .here _
    · exact .down isChild deeper

namespace Expressions

/-- The expressions with another limit on nesting. -/
abbrev limitedTo (expressions : Expressions) (limit : Nat) : Expressions :=
  { expressions with maxDepth := limit }

/-- None of the diagnostics says that groups are nested too deep. -/
def WithinLimit (diagnostics : List Diagnostic) : Prop :=
  ∀ diagnostic ∈ diagnostics, diagnostic.id ≠ "FK2006"

/-- Where nothing is reported, the limit is not reported. -/
theorem withinLimit_nil : WithinLimit [] := by
  intro diagnostic member
  cases member

/-- The limit is not reported among two lists of diagnostics when it is in neither of them. -/
theorem withinLimit_append {first second : List Diagnostic} :
    WithinLimit (first ++ second) ↔ WithinLimit first ∧ WithinLimit second :=
  List.forall_mem_append

/-- Every problem but that of the limit has another code. -/
theorem withinLimit_diagnose {problem : Problem} (other : problem.code ≠ "FK2006")
    (token : Token) : WithinLimit [problem.diagnose token] := by
  intro diagnostic member
  rw [List.mem_singleton.mp member]
  exact other

/-- A problem of the limit is told by its code. -/
theorem not_withinLimit_diagnose (limit : Nat) (token : Token) :
    ¬ WithinLimit [(Problem.nestingTooDeep limit).diagnose token] := by
  intro within
  exact within _ List.mem_cons_self rfl

/-! ## The limit is reported about steps only -/

/-- Putting an operator on the stack reports at most that it lacks an operand, and never the
limit. -/
theorem pushOperator_withinLimit (expressions : Expressions) (stack : List Item) (leaf : Token)
    (operator : Operator) :
    WithinLimit (expressions.pushOperator stack leaf operator).diagnostics := by
  unfold pushOperator
  split
  case h_5 => exact withinLimit_diagnose (by decide) leaf
  all_goals exact withinLimit_nil

/-- Giving an operand to the operators that wait for it reports at most that one is missing, and
never the limit. -/
theorem pushOperand_withinLimit (expressions : Expressions) (stack : List Item) (tree : Tree)
    (spine : Nat) : WithinLimit (expressions.pushOperand stack tree spine).diagnostics := by
  fun_induction pushOperand expressions stack tree spine with
  | case1 => exact withinLimit_nil
  | case2 leaf operator below tree spine _ _ inductionHypothesis =>
    have reported : WithinLimit [Problem.missingLeftOperand.diagnose leaf] :=
      withinLimit_diagnose (by decide) leaf
    exact withinLimit_append.mpr ⟨reported, inductionHypothesis⟩
  | case3 leaf operator below tree spine _ inductionHypothesis => exact inductionHypothesis
  | case4 => exact withinLimit_nil

/-- No part of a run that is put on the stack has the limit reported. -/
theorem push_withinLimit (expressions : Expressions) (stack : List Item) (part : Part) :
    WithinLimit (expressions.push stack part).diagnostics := by
  cases part with
  | operator leaf operator => exact expressions.pushOperator_withinLimit stack leaf operator
  | operand tree => exact expressions.pushOperand_withinLimit stack tree 0
  | nothing => exact withinLimit_nil

/-- At the end of a run the limit is not reported. -/
theorem finish_withinLimit (stack : List Item) (seen : Option Token) :
    WithinLimit (finish stack seen).diagnostics := by
  unfold finish
  split
  · exact withinLimit_nil
  · exact withinLimit_nil
  · exact withinLimit_diagnose (by decide) _
  · exact withinLimit_diagnose (by decide) _

/-- The limit is not reported about a run exactly when it is not reported about its steps. By
induction over the steps: neither the stack nor the end of a run reports anything about the
limit. -/
theorem assemble_withinLimit_iff (expressions : Expressions) (seen : Option Token)
    (steps : List Step) :
    WithinLimit (expressions.assemble seen steps).diagnostics ↔
      ∀ step ∈ steps, WithinLimit step.diagnostics := by
  have worked (working : Working) :
      WithinLimit (steps.foldl expressions.work working).diagnostics ↔
        WithinLimit working.diagnostics ∧ ∀ step ∈ steps, WithinLimit step.diagnostics := by
    induction steps generalizing working with
    | nil => simp
    | cons step steps inductionHypothesis =>
      have pushed := expressions.push_withinLimit working.stack step.part
      rw [List.foldl_cons, inductionHypothesis, work_eq, withinLimit_append, withinLimit_append,
        List.forall_mem_cons, and_iff_left pushed, and_assoc]
  rw [assemble, withinLimit_append, worked, and_iff_left (finish_withinLimit _ _),
    and_iff_right withinLimit_nil]

/-! ## Two limits -/

variable {expressions : Expressions} {limit larger : Nat}

/-- How far down an operator goes depends on precedences and not on the limit. By induction over the
length of the spine. -/
theorem graft_limitedTo (limit : Nat) (precedence : Int) (make : Tree → Tree) (spine : Nat)
    (tree : Tree) :
    (expressions.limitedTo limit).graft precedence make spine tree =
      expressions.graft precedence make spine tree := by
  induction spine generalizing tree with
  | zero => rfl
  | succ spine inductionHypothesis =>
    cases tree with
    | leaf token => rfl
    | branch name children =>
      have held : (expressions.limitedTo limit).spinePrecedence? (.branch name children) =
          expressions.spinePrecedence? (.branch name children) := rfl
      simp only [graft, held, inductionHypothesis]

/-- The limit does not change what an operator does to the stack. -/
theorem pushOperator_limitedTo (limit : Nat) (stack : List Item) (leaf : Token)
    (operator : Operator) :
    (expressions.limitedTo limit).pushOperator stack leaf operator =
      expressions.pushOperator stack leaf operator := by
  simp only [pushOperator, graft_limitedTo]

/-- The limit does not change what an operand does to the stack. By induction over the operators
that take the operand, none of which looks at the limit. -/
theorem pushOperand_limitedTo (limit : Nat) (stack : List Item) (tree : Tree) (spine : Nat) :
    (expressions.limitedTo limit).pushOperand stack tree spine =
      expressions.pushOperand stack tree spine := by
  fun_induction pushOperand expressions stack tree spine with
  | case1 leaf operator tree spine isBinary left leftSpine below grafted depth equal =>
    simp [pushOperand, isBinary, graft_limitedTo, equal]
  | case2 leaf operator below tree spine isBinary noOperand inductionHypothesis =>
    rw [pushOperand.eq_def]
    simp only [isBinary, if_true, inductionHypothesis]
  | case3 leaf operator below tree spine notBinary inductionHypothesis =>
    rw [pushOperand.eq_def]
    simp only [notBinary, if_false, inductionHypothesis]
  | case4 stack tree spine settled =>
    rw [pushOperand]
    exact settled

/-- What is put together from steps does not depend on the limit. -/
theorem assemble_limitedTo (limit : Nat) (seen : Option Token) (steps : List Step) :
    (expressions.limitedTo limit).assemble seen steps = expressions.assemble seen steps := by
  have work : (expressions.limitedTo limit).work = expressions.work := by
    funext working step
    simp only [Expressions.work, pushOperator_limitedTo, pushOperand_limitedTo]
  simp only [assemble, work]

/-- The run makes the same steps under the larger limit wherever the smaller one is not
reported. -/
def SameSteps (expressions : Expressions) (limit larger : Nat) (run : List Tree) : Prop :=
  ∀ depth seen,
    (∀ step ∈ (expressions.limitedTo limit).steps depth seen run, WithinLimit step.diagnostics) →
      (expressions.limitedTo larger).steps depth seen run =
        (expressions.limitedTo limit).steps depth seen run

/-- The run in a wrapper is resolved alike as long as it makes the same steps. -/
theorem SameSteps.assemble_eq {contents : List Tree}
    (same : expressions.SameSteps limit larger contents) (depth : Nat) (place : Token)
    (within : WithinLimit (expressions.assemble (some place)
      ((expressions.limitedTo limit).steps depth (some place) contents)).diagnostics) :
    expressions.assemble (some place)
        ((expressions.limitedTo larger).steps depth (some place) contents) =
      expressions.assemble (some place)
        ((expressions.limitedTo limit).steps depth (some place) contents) := by
  rw [same depth (some place) ((expressions.assemble_withinLimit_iff _ _).mp within)]

/-- Arguments are resolved alike under the larger limit. By induction over the elements: nothing is
reported about the limit in any of them, so each of their runs is resolved alike. -/
theorem arguments_limitedTo (depth : Nat) (place : Token) {elements : List Tree}
    (inner : ∀ name contents, .branch name contents ∈ elements →
      expressions.SameSteps limit larger contents)
    (within : WithinLimit ((expressions.limitedTo limit).arguments depth place
      elements).diagnostics) :
    (expressions.limitedTo larger).arguments depth place elements =
      (expressions.limitedTo limit).arguments depth place elements := by
  induction elements with
  | nil => rw [arguments, arguments]
  | cons element rest inductionHypothesis =>
    have others := inductionHypothesis fun name contents member =>
      inner name contents (List.mem_cons_of_mem _ member)
    cases element with
    | leaf token =>
      rw [arguments] at within
      rw [arguments, arguments, others (List.forall_mem_cons.mp within).2]
    | branch name contents =>
      rw [arguments] at within ⊢
      rw [arguments]
      simp only [assemble_limitedTo] at within ⊢
      split at within
      · rename_i isElement
        obtain ⟨own, later⟩ := withinLimit_append.mp within
        rw [if_pos isElement, if_pos isElement, others later,
          (inner name contents List.mem_cons_self).assemble_eq (depth + 1) place own]
      · rename_i notElement
        rw [if_neg notElement, if_neg notElement, others (List.forall_mem_cons.mp within).2]

/-- A call about which the smaller limit is not reported is the same under the larger one:
neither limit is reached where it stands. -/
theorem call_limitedTo (smaller : limit ≤ larger) (depth : Nat) (callee : Token)
    {elements : List Tree}
    (inner : ∀ name contents, .branch name contents ∈ elements →
      expressions.SameSteps limit larger contents)
    (within : WithinLimit ((expressions.limitedTo limit).call depth callee
      elements).diagnostics) :
    (expressions.limitedTo larger).call depth callee elements =
      (expressions.limitedTo limit).call depth callee elements := by
  unfold call at within ⊢
  simp only at within ⊢
  split at within
  · exact absurd within (not_withinLimit_diagnose limit _)
  · rename_i inside
    rw [if_neg inside, if_neg (by omega)]
    split at within
    · rename_i noArguments
      rw [if_pos noArguments, if_pos noArguments]
    · rename_i someArguments
      rw [if_neg someArguments, if_neg someArguments,
        arguments_limitedTo depth _ inner within]

/-- A group about which the smaller limit is not reported is the same under the larger one. A
group of the wrong shape is reported before the limit is looked at. -/
theorem group_limitedTo (smaller : limit ≤ larger) (depth : Nat) (seen : Option Token)
    {elements : List Tree}
    (inner : ∀ name contents, .branch name contents ∈ elements →
      expressions.SameSteps limit larger contents)
    (within : WithinLimit ((expressions.limitedTo limit).group depth seen
      elements).diagnostics) :
    (expressions.limitedTo larger).group depth seen elements =
      (expressions.limitedTo limit).group depth seen elements := by
  unfold group at within ⊢
  simp only [assemble_limitedTo] at within ⊢
  split
  · rename_i name contents
    simp only at within
    split
    · rename_i isElement
      rw [if_pos isElement] at within
      split at within
      · exact absurd within (not_withinLimit_diagnose limit _)
      · rename_i inside
        rw [if_neg (by omega), if_neg inside,
          (inner name contents List.mem_cons_self).assemble_eq (depth + 1) _ within]
    · rfl
  · rfl
  · rfl

/-- A run makes the same steps under a larger limit wherever the smaller one is not reported.

Proof: the induction follows the run. What is reported about a wrapper contains what is
reported about the runs in it, so the limit is not reported about these either. -/
theorem steps_limitedTo (smaller : limit ≤ larger) (run : List Tree) :
    expressions.SameSteps limit larger run := by
  induction run using run_induction expressions with
  | nothing =>
    intro depth seen _
    rw [steps, steps]
  | leaf token rest alone inductionHypothesis =>
    intro depth seen within
    have limited := (expressions.limitedTo limit).steps_leaf depth seen token rest alone
    have extended := (expressions.limitedTo larger).steps_leaf depth seen token rest alone
    rw [limited] at within ⊢
    rw [extended, inductionHypothesis depth _ (List.forall_mem_cons.mp within).2]
    rfl
  | call callee elements others symbol inner inductionHypothesis =>
    intro depth seen within
    have limited := (expressions.limitedTo limit).steps_call depth seen callee symbol elements
      others
    have extended := (expressions.limitedTo larger).steps_call depth seen callee symbol elements
      others
    rw [limited] at within ⊢
    obtain ⟨own, later⟩ := List.forall_mem_cons.mp within
    rw [extended, call_limitedTo smaller depth callee inner own, inductionHypothesis depth _ later]
  | group elements rest inner inductionHypothesis =>
    intro depth seen within
    have limited := (expressions.limitedTo limit).steps_group depth seen elements rest
    have extended := (expressions.limitedTo larger).steps_group depth seen elements rest
    rw [limited] at within ⊢
    obtain ⟨own, later⟩ := List.forall_mem_cons.mp within
    rw [extended, group_limitedTo smaller depth seen inner own, inductionHypothesis depth _ later]
  | stray name elements rest stray inductionHypothesis =>
    intro depth seen within
    have limited := (expressions.limitedTo limit).steps_stray_eq depth seen stray elements rest
    have extended := (expressions.limitedTo larger).steps_stray_eq depth seen stray elements rest
    rw [limited] at within ⊢
    rw [extended, inductionHypothesis depth _ (List.forall_mem_cons.mp within).2]

/-! ## Wrappers on the way down -/

/-- No way down into one of the trees, from its root on, passes more than the given number of
branches of the name. -/
def Shallow (name : String) (bound : Nat) (trees : List Tree) : Prop :=
  ∀ tree ∈ trees, ∀ nodes, tree.Path nodes → (tree :: nodes).countP (·.isNamed name) ≤ bound

/-- What holds of the ways down into several trees holds of those into all but the first. -/
theorem Shallow.rest {name : String} {bound : Nat} {tree : Tree} {trees : List Tree}
    (shallow : Shallow name bound (tree :: trees)) : Shallow name bound trees :=
  (List.forall_mem_cons.mp shallow).2

/-- Inside a branch of the name one branch fewer is left to be passed. The branch itself is on every
path into its elements, and counts there. -/
theorem Shallow.inside {name : String} {bound : Nat} {elements trees : List Tree}
    (shallow : Shallow name bound (.branch name elements :: trees)) :
    1 ≤ bound ∧ ∀ inner contents, .branch inner contents ∈ elements →
      Shallow name (bound - 1) contents := by
  have passed := (List.forall_mem_cons.mp shallow).1
  have counts (nodes : List Tree) :
      (Tree.branch name elements :: nodes).countP (·.isNamed name) =
        nodes.countP (·.isNamed name) + 1 :=
    List.countP_cons_of_pos (by simp [Tree.isNamed])
  constructor
  · have atWrapper := passed [] (.here _)
    rw [counts] at atWrapper
    omega
  · intro inner contents isElement tree member nodes path
    have below : (Tree.branch name elements).Path (.branch inner contents :: tree :: nodes) :=
      .down isElement (.down member path)
    have counted := passed _ below
    rw [counts, List.countP_cons] at counted
    omega

/-- The limit is not reported about a run at the given depth when no way down from there
passes more wrappers than are left to the limit. -/
def StaysWithin (expressions : Expressions) (run : List Tree) : Prop :=
  ∀ depth seen bound, Shallow expressions.names.expression bound run →
    depth + bound ≤ expressions.maxDepth →
      ∀ step ∈ expressions.steps depth seen run, WithinLimit step.diagnostics

/-- The limit is not reported about the arguments of a call that has room for its own wrapper and
for those on the ways down into its elements. -/
theorem arguments_withinLimit {depth bound : Nat} (place : Token) {elements : List Tree}
    (inner : ∀ name contents, .branch name contents ∈ elements →
      expressions.StaysWithin contents ∧ Shallow expressions.names.expression bound contents)
    (room : depth + 1 + bound ≤ expressions.maxDepth) :
    WithinLimit (expressions.arguments depth place elements).diagnostics := by
  have reported : WithinLimit [Problem.expectedExpression.diagnose place] :=
    withinLimit_diagnose (by decide) place
  induction elements with
  | nil =>
    rw [arguments]
    exact withinLimit_nil
  | cons element rest inductionHypothesis =>
    have others := inductionHypothesis fun name contents member =>
      inner name contents (List.mem_cons_of_mem _ member)
    cases element with
    | leaf token =>
      rw [arguments]
      exact withinLimit_append.mpr ⟨reported, others⟩
    | branch name contents =>
      obtain ⟨stays, shallow⟩ := inner name contents List.mem_cons_self
      rw [arguments]
      simp only
      split
      · apply withinLimit_append.mpr
        constructor
        · rw [assemble_withinLimit_iff]
          exact stays (depth + 1) (some place) bound shallow room
        · exact others
      · exact withinLimit_append.mpr ⟨reported, others⟩

/-- The limit is not reported about a call with as much room as the wrappers in its arguments need,
since the call itself is not too deep. -/
theorem call_withinLimit {depth bound : Nat} (callee : Token) {elements : List Tree}
    (inner : ∀ name contents, .branch name contents ∈ elements →
      expressions.StaysWithin contents ∧ Shallow expressions.names.expression bound contents)
    (room : depth + 1 + bound ≤ expressions.maxDepth) :
    WithinLimit (expressions.call depth callee elements).diagnostics := by
  unfold call
  simp only
  rw [if_neg (by omega)]
  split
  · exact withinLimit_nil
  · exact arguments_withinLimit _ inner room

/-- The limit is not reported about a group with as much room as the wrappers in it need, since the
group itself is not too deep. -/
theorem group_withinLimit {depth bound : Nat} (seen : Option Token) {elements : List Tree}
    (inner : ∀ name contents, .branch name contents ∈ elements →
      expressions.StaysWithin contents ∧ Shallow expressions.names.expression bound contents)
    (room : depth + 1 + bound ≤ expressions.maxDepth) :
    WithinLimit (expressions.group depth seen elements).diagnostics := by
  unfold group
  simp only
  split
  · rename_i name contents
    obtain ⟨stays, shallow⟩ := inner name contents List.mem_cons_self
    split
    · rw [if_neg (by omega), assemble_withinLimit_iff]
      exact stays (depth + 1) _ bound shallow room
    · exact withinLimit_diagnose (by decide) _
  · exact withinLimit_diagnose (by decide) _
  · exact withinLimit_diagnose (by decide) _

/-- Every wrapper takes one from what is left to the limit, whether it is a group or the
argument list of a call, and the runs in it are one level deeper. -/
theorem steps_withinLimit (run : List Tree) : expressions.StaysWithin run := by
  induction run using run_induction expressions with
  | nothing =>
    intro depth seen bound _ _
    rw [steps]
    simp
  | leaf token rest alone inductionHypothesis =>
    intro depth seen bound shallow room
    rw [expressions.steps_leaf depth seen token rest alone]
    rw [List.forall_mem_cons]
    constructor
    · unfold leafStep
      simp only
      split
      · exact withinLimit_diagnose (by decide) token
      · exact withinLimit_nil
    · exact inductionHypothesis depth _ bound shallow.rest room
  | call callee elements others symbol inner inductionHypothesis =>
    intro depth seen bound shallow room
    obtain ⟨positive, shallower⟩ := shallow.rest.inside
    have roomInside : depth + 1 + (bound - 1) ≤ expressions.maxDepth := by omega
    rw [expressions.steps_call depth seen callee symbol]
    rw [List.forall_mem_cons]
    constructor
    · refine call_withinLimit callee ?_ roomInside
      intro name contents isElement
      exact ⟨inner name contents isElement, shallower name contents isElement⟩
    · exact inductionHypothesis depth _ bound shallow.rest.rest room
  | group elements rest inner inductionHypothesis =>
    intro depth seen bound shallow room
    obtain ⟨positive, shallower⟩ := shallow.inside
    have roomInside : depth + 1 + (bound - 1) ≤ expressions.maxDepth := by omega
    rw [steps_group]
    rw [List.forall_mem_cons]
    constructor
    · refine group_withinLimit seen ?_ roomInside
      intro name contents isElement
      exact ⟨inner name contents isElement, shallower name contents isElement⟩
    · exact inductionHypothesis depth _ bound shallow.rest room
  | stray name elements rest stray inductionHypothesis =>
    intro depth seen bound shallow room
    rw [steps_stray_eq _ _ _ stray]
    rw [List.forall_mem_cons]
    constructor
    · exact withinLimit_diagnose (by decide) _
    · exact inductionHypothesis depth _ bound shallow.rest room

/-- The run of a tree is as shallow as the tree without its root. A way through one of the children
is a way through the tree, and the root does not count on it. -/
theorem shallow_runOf {name : String} {bound : Nat} {tree : Tree}
    (passed : ∀ nodes, tree.Path nodes → nodes.countP (·.isNamed name) ≤ bound) :
    Shallow name bound (runOf tree) := by
  cases tree with
  | leaf token =>
    intro only isOnly nodes path
    rw [List.mem_singleton.mp isOnly] at path ⊢
    rw [Tree.path_leaf_iff.mp path]
    simp [Tree.isNamed]
  | branch own children =>
    intro child isChild nodes path
    exact passed (child :: nodes) (.down isChild path)

/-- The limit on nesting only ever adds its own report. A tree about which a limit is not
reported has the same expression under every larger limit, with the same diagnostics. And a
limit is not reported about a tree in which no way down from the root, which does not count
itself, passes more wrappers than the limit. -/
theorem resolve_under_limit (expressions : Expressions) (tree : Tree) (limit : Nat) :
    (∀ larger, limit ≤ larger →
      (∀ diagnostic ∈ ((expressions.limitedTo limit).resolve tree).diagnostics,
        diagnostic.id ≠ "FK2006") →
      (expressions.limitedTo larger).resolve tree = (expressions.limitedTo limit).resolve tree) ∧
    ((∀ nodes, tree.Path nodes →
        nodes.countP (·.isNamed expressions.names.expression) ≤ limit) →
      ∀ diagnostic ∈ ((expressions.limitedTo limit).resolve tree).diagnostics,
        diagnostic.id ≠ "FK2006") := by
  constructor
  · intro larger smaller unreported
    have within := ((expressions.limitedTo limit).assemble_withinLimit_iff _ _).mp
      (resolve_eq (expressions.limitedTo limit) tree ▸ unreported)
    rw [resolve_eq, resolve_eq, steps_limitedTo smaller (runOf tree) 0 none within,
      assemble_limitedTo larger, assemble_limitedTo limit]
  · intro passed
    have stays : (expressions.limitedTo limit).StaysWithin (runOf tree) :=
      steps_withinLimit (runOf tree)
    rw [resolve_eq]
    apply ((expressions.limitedTo limit).assemble_withinLimit_iff _ _).mpr
    exact stays 0 none limit (shallow_runOf passed) (by simp)

/-- The run `( f ( 1 ) )`, a call in a group. -/
def callInGroup : Tree :=
  .branch "line" [.branch "expression" [.branch "argument" [.leaf (.bare "f" .symbol),
    .branch "expression" [.branch "argument" [.leaf (.bare "1" .integerLiteral)]]]]]

/-- The call is in two wrappers. A limit of two is not reported, and without changing anything
it may be larger; a limit of one is reported about the argument list. -/
theorem callInGroup_under_limit :
    (∀ nodes, callInGroup.Path nodes → nodes.countP (·.isNamed "expression") ≤ 2) ∧
      ((limitedTo {} 2).resolve callInGroup).value.sketch = "(call: 'f' '1')" ∧
      (limitedTo {} 256).resolve callInGroup = (limitedTo {} 2).resolve callInGroup ∧
      ((limitedTo {} 1).resolve callInGroup).diagnostics.map (·.id) = ["FK2006"] := by
  have passed : ∀ nodes, callInGroup.Path nodes →
      nodes.countP (·.isNamed "expression") ≤ 2 := by
    intro nodes path
    simp only [callInGroup, Tree.path_branch_iff, Tree.path_leaf_iff, List.mem_cons,
      List.not_mem_nil, or_false, exists_eq_or_imp, exists_eq_left] at path
    rcases path with rfl | rfl | rfl | rfl | rfl | rfl | rfl
    all_goals decide
  obtain ⟨extended, within⟩ := resolve_under_limit {} callInGroup 2
  exact ⟨passed, by decide +kernel, extended 256 (by decide) (within passed), by decide +kernel⟩

end Expressions

end Parlance
