import Parlance.Proofs.Expression.Spine
import Parlance.Proofs.Tree.Walks

/-!
# Working off a run in place

The operators that wait can be kept as the trees that they are in the run, and the nodes that an
operator takes can be reached through the last child of each node above them. Then a report about
an operator asks its tree for a token, going down the spine asks for the last child of a node,
and taking a group, an element or an argument list apart asks for children. Each of these fails
on the wrong kind of tree; still, no access fails, and the outcome is that of the steps.

The reasons differ. What waits is a leaf, since only leaves are operators. What is taken apart
has a name, since its name was compared. A node that is gone through has a precedence, which is
read off one of its children, so it has a last one. That it is also a node of this run, and never
a complete operand, is what the number kept with an operand says.
-/

namespace Parlance.Expressions

namespace InPlace

/-- An entry of the stack, in which an operator that waits is the tree that it is in the run. -/
inductive Item where
  | operand (tree : Tree) (spine : Nat)
  | pending (leaf : Tree) (operator : Operator)

/-- A run that is being worked off. -/
structure Working where
  stack : List Item := []
  seen : Option Token
  diagnostics : List Diagnostic := []

/-- What a child of a run is. -/
inductive Kind where
  | operator (operator : Operator)
  | literal
  | symbol
  | wrapper
  | other

/-- What a child of a run is: a leaf by its token, and a branch by its name. -/
def classify (expressions : Expressions) : Tree → Kind
  | .leaf token =>
    match expressions.classify token with
    | .operator operator => .operator operator
    | .literal => .literal
    | .symbol => .symbol
    | .other => .other
  | .branch name _ => if name = expressions.names.expression then .wrapper else .other

/-- Go to the last child at most `spine` times, as long as the nodes bind more loosely than
`precedence`, and write there what `make` makes of the node. -/
def descend (expressions : Expressions) (precedence : Int) (make : Tree → Tree) :
    Nat → Tree → Except Tree.Misuse (Tree × Nat)
  | 0, tree => return (make tree, 0)
  | spine + 1, tree =>
    if (expressions.spinePrecedence? tree).any (· < precedence) then do
      let last ← tree.lastChild
      let (written, depth) ← descend expressions precedence make spine last
      let tree ← tree.setLastChild written
      return (tree, depth + 1)
    else return (make tree, 0)

/-- Put an operator on the stack, or apply it at once when it takes the operand before it. -/
def pushOperator (expressions : Expressions) (stack : List Item) (leaf : Tree)
    (operator : Operator) : Except Tree.Misuse (Reported (List Item)) :=
  match operator.arity, stack with
  | .binary, _ => return { value := .pending leaf operator :: stack }
  | .unaryRight, _ => return { value := .pending leaf operator :: stack }
  | _, .operand tree spine :: rest => do
    let (taken, depth) ← descend expressions operator.precedence
      (fun operand => .branch expressions.names.unaryLeft [operand, leaf]) spine tree
    return { value := .operand taken depth :: rest }
  | .unaryBoth, _ => return { value := .pending leaf operator :: stack }
  | .unaryLeft, _ => do
    let token ← leaf.token
    return { value := stack, diagnostics := [Problem.missingLeftOperand.diagnose token] }

/-- Give an operand to the operators that wait for it, and put the result on the stack. -/
def pushOperand (expressions : Expressions) :
    List Item → Tree → Nat → Except Tree.Misuse (Reported (List Item))
  | .pending leaf operator :: rest, tree, spine =>
    if operator.arity = .binary then
      match rest with
      | .operand left leftSpine :: below => do
        let (joined, depth) ← descend expressions operator.precedence
          (fun operand => .branch expressions.names.binary [operand, leaf, tree]) leftSpine left
        return { value := .operand joined (depth + 1 + spine) :: below }
      | _ => do
        let token ← leaf.token
        let settled ← pushOperand expressions rest tree spine
        return {
          value := settled.value
          diagnostics := Problem.missingLeftOperand.diagnose token :: settled.diagnostics }
    else
      pushOperand expressions rest
        (.branch expressions.names.unaryRight [leaf, tree]) (spine + 1)
  | stack, tree, spine => return { value := .operand tree spine :: stack }

/-- The tree of a run that is worked off. -/
def finish (stack : List Item) (seen : Option Token) : Except Tree.Misuse (Reported Tree) :=
  match stack with
  | [] => return { value := .empty }
  | [.operand tree _] => return { value := tree }
  | .pending leaf _ :: _ => do
    let token ← leaf.token
    return { value := .empty, diagnostics := [Problem.operatorAsOperand.diagnose token] }
  | .operand tree _ :: _ => return {
      value := .empty
      diagnostics := [Problem.unexpectedArgumentList.diagnose (site tree seen)] }

namespace Working

/-- Put a leaf that is an operator on the stack. -/
def takeOperator (expressions : Expressions) (working : Working) (seen : Option Token)
    (leaf : Tree) (operator : Operator) : Except Tree.Misuse Working := do
  let pushed ← pushOperator expressions working.stack leaf operator
  return { stack := pushed.value, seen, diagnostics := working.diagnostics ++ pushed.diagnostics }

/-- Put an operand on the stack, with what was reported about it. -/
def takeOperand (expressions : Expressions) (working : Working) (seen : Option Token)
    (operand : Reported Tree) : Except Tree.Misuse Working := do
  let pushed ← pushOperand expressions working.stack operand.value 0
  return {
    stack := pushed.value
    seen
    diagnostics := working.diagnostics ++ operand.diagnostics ++ pushed.diagnostics }

/-- Report a child that is out of place. -/
def report (working : Working) (seen : Option Token) (diagnostic : Diagnostic) : Working :=
  { working with seen, diagnostics := working.diagnostics ++ [diagnostic] }

end Working

mutual

/-- Work off a run at the given depth. -/
def sequence (expressions : Expressions) (depth : Nat) (working : Working) (run : List Tree) :
    Except Tree.Misuse (Reported Tree) :=
  match run with
  | [] => do
    let finished ← finish working.stack working.seen
    return {
      value := finished.value
      diagnostics := working.diagnostics ++ finished.diagnostics }
  | child :: rest =>
    let seen := child.lastToken?.or working.seen
    match classify expressions child with
    | .operator operator => do
      let working ← working.takeOperator expressions seen child operator
      sequence expressions depth working rest
    | .literal => do
      let working ← working.takeOperand expressions seen { value := child }
      sequence expressions depth working rest
    | .symbol =>
      match rest with
      | behind :: others =>
        if behind.isNamed expressions.names.expression then do
          let called ← call expressions depth (site behind seen) child behind
          let working ← working.takeOperand expressions seen called
          sequence expressions depth working others
        else do
          let working ← working.takeOperand expressions seen { value := child }
          sequence expressions depth working (behind :: others)
      | [] => do
        let working ← working.takeOperand expressions seen { value := child }
        sequence expressions depth working []
    | .wrapper => do
      let grouped ← group expressions depth (site child seen) child
      let working ← working.takeOperand expressions seen grouped
      sequence expressions depth working rest
    | .other =>
      let diagnostic := Problem.unexpectedToken.diagnose (site child seen)
      sequence expressions depth (working.report seen diagnostic) rest
termination_by 2 * Tree.sizeAll run + 1
decreasing_by
  -- A child is gone with every call, and it has a node.
  all_goals
    have positive := child.size_pos
    simp only [Tree.sizeAll]
    omega

/-- Work off the only element of a group, which must have contents. -/
def group (expressions : Expressions) (depth : Nat) (place : Token) (wrapper : Tree) :
    Except Tree.Misuse (Reported Tree) :=
  if wrapper.children.length ≠ 1 then
    return { value := .empty, diagnostics := [Problem.unexpectedArgumentList.diagnose place] }
  else match _unpacked : wrapper.intoChildren with
    | .error misuse => .error misuse
    | .ok elements =>
      match _only : elements.getLast? with
      | none => return { value := .empty }
      | some element =>
        if !element.isNamed expressions.names.element || element.isChildless then
          return { value := .empty, diagnostics := [Problem.expectedExpression.diagnose place] }
        else if expressions.maxDepth ≤ depth then return {
          value := .empty
          diagnostics := [(Problem.nestingTooDeep expressions.maxDepth).diagnose place] }
        else match _opened : element.intoChildren with
          | .error misuse => .error misuse
          | .ok contents => sequence expressions (depth + 1) { seen := some place } contents
termination_by 2 * wrapper.size
decreasing_by
  have smaller := Tree.sizeAll_lt_of_intoChildren _unpacked
  have inner := Tree.sizeAll_lt_of_intoChildren _opened
  have among := size_le_sizeAll (List.mem_of_getLast? _only)
  omega

/-- Work off a call: the wrapper behind the callee holds its arguments. -/
def call (expressions : Expressions) (depth : Nat) (place : Token) (callee wrapper : Tree) :
    Except Tree.Misuse (Reported Tree) :=
  if expressions.maxDepth ≤ depth then return {
    value := .empty
    diagnostics := [(Problem.nestingTooDeep expressions.maxDepth).diagnose place] }
  else match _unpacked : wrapper.intoChildren with
    | .error misuse => .error misuse
    | .ok elements =>
      if elements.map Tree.isChildless = [true] then
        return { value := .branch expressions.names.call [callee] }
      else do
        let given ← arguments expressions depth place elements
        return {
          value := .branch expressions.names.call (callee :: given.value)
          diagnostics := given.diagnostics }
termination_by 2 * wrapper.size
decreasing_by
  have smaller := Tree.sizeAll_lt_of_intoChildren _unpacked
  omega

/-- Work off the elements of an argument list. -/
def arguments (expressions : Expressions) (depth : Nat) (place : Token) (elements : List Tree) :
    Except Tree.Misuse (Reported (List Tree)) :=
  match elements with
  | [] => return { value := [] }
  | element :: rest =>
    if !element.isNamed expressions.names.element || element.isChildless then do
      let others ← arguments expressions depth place rest
      return {
        value := others.value
        diagnostics := Problem.expectedExpression.diagnose place :: others.diagnostics }
    else match _opened : element.intoChildren with
      | .error misuse => .error misuse
      | .ok contents => do
        let argument ← sequence expressions (depth + 1) { seen := some place } contents
        let others ← arguments expressions depth place rest
        return {
          value :=
            if argument.value.isEmpty then others.value else argument.value :: others.value
          diagnostics := argument.diagnostics ++ others.diagnostics }
termination_by 2 * Tree.sizeAll elements + 1
decreasing_by
  · have positive := element.size_pos
    simp only [Tree.sizeAll]
    omega
  · have inner := Tree.sizeAll_lt_of_intoChildren _opened
    simp only [Tree.sizeAll]
    omega
  · have positive := element.size_pos
    simp only [Tree.sizeAll]
    omega

end

/-- The expression that the children of a tree form; a leaf is a run of itself. -/
def resolve (expressions : Expressions) (tree : Tree) : Except Tree.Misuse (Reported Tree) := do
  let run ← if tree.isLeaf then .ok [tree] else tree.intoChildren
  sequence expressions 0 { seen := none } run

end InPlace

variable {expressions : Expressions}

/-! ## No access fails -/

/-- The entry with its operator as a leaf of the run. -/
def Item.inPlace : Item → InPlace.Item
  | .operand tree spine => .operand tree spine
  | .pending leaf operator => .pending (.leaf leaf) operator

/-- The run that is worked off, with its operators as leaves. -/
def Working.inPlace (working : Working) : InPlace.Working where
  stack := working.stack.map Item.inPlace
  seen := working.seen
  diagnostics := working.diagnostics

/-- The token seen last is the same when operators are kept as leaves. -/
theorem Working.inPlace_seen (working : Working) : working.inPlace.seen = working.seen := rfl

/-- A node that is gone through has a precedence, and so it has children. By induction over the
length of the spine, and the walk stops in front of a node without a precedence. -/
theorem descend_eq_ok (expressions : Expressions) (precedence : Int) (make : Tree → Tree)
    (spine : Nat) (tree : Tree) :
    InPlace.descend expressions precedence make spine tree =
      .ok (expressions.graft precedence make spine tree) := by
  induction spine generalizing tree with
  | zero => rfl
  | succ spine inductionHypothesis =>
    cases tree with
    | leaf token => rfl
    | branch name children =>
      rcases List.eq_nil_or_concat' children with rfl | ⟨front, last, rfl⟩
      · have none : expressions.spinePrecedence? (.branch name []) = none := by
          simp [spinePrecedence?]
        simp [InPlace.descend, graft, none]
      · rw [InPlace.descend, graft_node]
        split
        · simp [Tree.lastChild, Tree.setLastChild, inductionHypothesis]
        · rfl

/-- An operator that is reported is a leaf. -/
theorem pushOperator_eq_ok (expressions : Expressions) (stack : List Item) (leaf : Token)
    (operator : Operator) :
    InPlace.pushOperator expressions (stack.map Item.inPlace) (.leaf leaf) operator =
      .ok {
        value := (expressions.pushOperator stack leaf operator).value.map Item.inPlace
        diagnostics := (expressions.pushOperator stack leaf operator).diagnostics } := by
  obtain ⟨arity, precedence⟩ := operator
  rcases stack with _ | ⟨⟨tree, spine⟩ | ⟨waiting, other⟩, below⟩ <;> cases arity <;>
    simp [InPlace.pushOperator, pushOperator, Item.inPlace, descend_eq_ok, Tree.token]

/-- An operator that is dropped is a leaf, and an operand below is gone into through its open
nodes. -/
theorem pushOperand_eq_ok (expressions : Expressions) (stack : List Item) (tree : Tree)
    (spine : Nat) :
    InPlace.pushOperand expressions (stack.map Item.inPlace) tree spine =
      .ok {
        value := (expressions.pushOperand stack tree spine).value.map Item.inPlace
        diagnostics := (expressions.pushOperand stack tree spine).diagnostics } := by
  fun_induction pushOperand expressions stack tree spine with
  | case1 leaf operator tree spine isBinary left leftSpine below grafted depth reached =>
    simp [InPlace.pushOperand, Item.inPlace, isBinary, descend_eq_ok, reached]
  | case2 leaf operator below tree spine isBinary noOperand inductionHypothesis =>
    cases below with
    | nil => simp [InPlace.pushOperand, Item.inPlace, isBinary, Tree.token, pushOperand]
    | cons item below =>
      cases item with
      | operand held count => exact absurd rfl (noOperand held count below)
      | pending waiting other =>
        rw [List.map_cons, Item.inPlace] at inductionHypothesis
        rw [List.map_cons, List.map_cons, Item.inPlace, Item.inPlace, InPlace.pushOperand.eq_def]
        simp [isBinary, Tree.token, inductionHypothesis]
  | case3 leaf operator below tree spine notBinary inductionHypothesis =>
    rw [List.map_cons, Item.inPlace, InPlace.pushOperand.eq_def]
    simp only [if_neg notBinary]
    exact inductionHypothesis
  | case4 stack tree spine settled =>
    cases stack with
    | nil => rfl
    | cons item below =>
      cases item with
      | operand held count => rfl
      | pending leaf operator => exact absurd rfl (settled leaf operator below)

/-- An operator that is left over is a leaf. -/
theorem finish_eq_ok (stack : List Item) (seen : Option Token) :
    InPlace.finish (stack.map Item.inPlace) seen = .ok (finish stack seen) := by
  rcases stack with _ | ⟨⟨tree, spine⟩ | ⟨leaf, operator⟩, _ | ⟨item, below⟩⟩ <;> rfl

/-- Putting a leaf that is an operator on the stack never misuses a tree, and does what a step with
this operator does. -/
theorem takeOperator_eq_ok (expressions : Expressions) (working : Working) (seen : Option Token)
    (leaf : Token) (operator : Operator) :
    working.inPlace.takeOperator expressions seen (.leaf leaf) operator =
      .ok (expressions.work working { part := .operator leaf operator, seen }).inPlace := by
  rw [InPlace.Working.takeOperator, Working.inPlace, pushOperator_eq_ok, work_eq]
  simp [Working.inPlace, push]

/-- Putting an operand on the stack never misuses a tree, and does what a step with this operand
does. -/
theorem takeOperand_eq_ok (expressions : Expressions) (working : Working) (seen : Option Token)
    (operand : Reported Tree) :
    working.inPlace.takeOperand expressions seen operand =
      .ok (expressions.work working
        { part := .operand operand.value, seen, diagnostics := operand.diagnostics }).inPlace := by
  rw [InPlace.Working.takeOperand, Working.inPlace, pushOperand_eq_ok, work_eq]
  simp [Working.inPlace, push]

/-- The tree of a run that is worked off, and what was reported on the way. -/
def Working.outcome (working : Working) : Reported Tree where
  value := (finish working.stack working.seen).value
  diagnostics := working.diagnostics ++ (finish working.stack working.seen).diagnostics

/-- Working off the run in place comes to what its steps come to. -/
def WorksInPlace (expressions : Expressions) (run : List Tree) : Prop :=
  ∀ depth working, InPlace.sequence expressions depth working.inPlace run =
    .ok ((expressions.steps depth working.seen run).foldl expressions.work working).outcome

/-- A run of its own begins with an empty stack. -/
theorem WorksInPlace.assemble {run : List Tree} (works : expressions.WorksInPlace run)
    (depth : Nat) (seen : Option Token) :
    InPlace.sequence expressions depth { seen } run =
      .ok (expressions.assemble seen (expressions.steps depth seen run)) :=
  works depth { seen }

/-- A child is refused as an argument when it is no element or has no contents. The two ways to ask
for this agree on branches. -/
theorem refuses_eq (expressions : Expressions) (name : String) (contents : List Tree) :
    (!(Tree.branch name contents).isNamed expressions.names.element ||
        (Tree.branch name contents).isChildless) =
      !(name = expressions.names.element && !contents.isEmpty) := by
  simp [Tree.isNamed, Tree.isChildless, Tree.children]

/-- Elements that are taken apart have the name of elements. By induction over the elements. A leaf
is refused by its name before anything is taken from it. -/
theorem arguments_eq_ok {elements : List Tree}
    (works : ∀ name contents, .branch name contents ∈ elements →
      expressions.WorksInPlace contents) (depth : Nat) (place : Token) :
    InPlace.arguments expressions depth place elements =
      .ok (expressions.arguments depth place elements) := by
  induction elements with
  | nil => simp [InPlace.arguments, arguments]
  | cons element rest inductionHypothesis =>
    have others := inductionHypothesis fun name contents member =>
      works name contents (List.mem_cons_of_mem _ member)
    cases element with
    | leaf token =>
      rw [InPlace.arguments, arguments]
      simp [Tree.isNamed, others]
    | branch name contents =>
      have inner := (works name contents List.mem_cons_self).assemble (depth + 1) (some place)
      rw [InPlace.arguments, arguments, refuses_eq]
      simp only [Tree.intoChildren, inner, others, Tree.Misuse.ok_bind, Tree.Misuse.pure_eq_ok]
      cases name = expressions.names.element && !contents.isEmpty <;> rfl

/-- A call is worked off without misuse when the contents of its elements are. It is worked off as
the arguments of its wrapper, with the same limit. -/
theorem call_eq_ok {elements : List Tree}
    (works : ∀ name contents, .branch name contents ∈ elements →
      expressions.WorksInPlace contents) (depth : Nat) (callee : Token) :
    InPlace.call expressions depth
        (site (.branch expressions.names.expression elements) (some callee)) (.leaf callee)
        (.branch expressions.names.expression elements) =
      .ok (expressions.call depth callee elements) := by
  rw [InPlace.call, call]
  simp only [Tree.intoChildren, arguments_eq_ok works, Tree.Misuse.ok_bind,
    Tree.Misuse.pure_eq_ok]
  split
  · rfl
  · split <;> rfl

/-- A group is worked off without misuse when the contents of its only element are. The shapes of a
group that are refused are told by counting its children, and this never fails for a branch. -/
theorem group_eq_ok {elements : List Tree}
    (works : ∀ name contents, .branch name contents ∈ elements →
      expressions.WorksInPlace contents) (depth : Nat) (seen : Option Token) :
    InPlace.group expressions depth (site (.branch expressions.names.expression elements) seen)
        (.branch expressions.names.expression elements) =
      .ok (expressions.group depth seen elements) := by
  rw [InPlace.group, group.eq_def]
  match elements, works with
  | [], _ => rfl
  | [.leaf token], _ => rfl
  | [.branch inner contents], works =>
    have inside := (works inner contents List.mem_cons_self).assemble (depth + 1)
      (some (site (.branch expressions.names.expression [.branch inner contents]) seen))
    rw [if_neg (by simp [Tree.children])]
    simp only [Tree.intoChildren, List.getLast?_singleton, refuses_eq, inside]
    cases inner = expressions.names.element && !contents.isEmpty
    · rfl
    · rw [Bool.not_true, if_neg Bool.false_ne_true, if_pos rfl]
      split <;> rfl
  | first :: second :: others, _ =>
    rw [if_pos (by simp [Tree.children])]
    cases first <;> rfl

/-! ## Whole runs -/

/-- What is out of place leaves the stack as it is. -/
theorem report_inPlace (expressions : Expressions) (working : Working) (seen : Option Token)
    (diagnostic : Diagnostic) :
    working.inPlace.report seen diagnostic =
      (expressions.work working
        { part := .nothing, seen, diagnostics := [diagnostic] }).inPlace := by
  simp [work, Working.inPlace, InPlace.Working.report]

/-- The last token of a tree is where a diagnostic about it points, whether or not it counts as
seen before. -/
theorem site_or (tree : Tree) (seen : Option Token) :
    site tree (tree.lastToken?.or seen) = site tree seen := by
  rw [site, site, ← Option.or_assoc, Option.or_self]

/-- The end of a run asks the stack for its only tree, or for the token of an operator that waits,
and finds it there. -/
theorem worksInPlace_nil : expressions.WorksInPlace [] := by
  intro depth working
  rw [InPlace.sequence, steps]
  simp [Working.inPlace, finish_eq_ok, Working.outcome]

/-- A leaf that is an operator makes a step with this operator. -/
theorem leafStep_of_operator {token : Token} {operator : Operator}
    (kind : expressions.classify token = .operator operator) :
    expressions.leafStep token = { part := .operator token operator, seen := some token } := by
  simp [leafStep, leafPart, kind]

/-- A leaf that is a literal or a symbol makes a step with itself as an operand. -/
theorem leafStep_of_value {token : Token}
    (kind : expressions.classify token = .literal ∨ expressions.classify token = .symbol) :
    expressions.leafStep token = { part := .operand (.leaf token), seen := some token } := by
  rcases kind with literal | symbol
  · simp [leafStep, leafPart, literal]
  · simp [leafStep, leafPart, symbol]

/-- Any other leaf makes a step that reports it and adds nothing to the run. -/
theorem leafStep_of_other {token : Token} (kind : expressions.classify token = .other) :
    expressions.leafStep token =
      { part := .nothing, seen := some token
        diagnostics := [Problem.unexpectedToken.diagnose (site (.leaf token) (some token))] } := by
  simp [leafStep, leafPart, kind, site]

/-- A leaf that is not the callee of a call is an operator, a value, or out of place. Only a symbol
has to look further, at the tree behind it, and there is no call because that tree is no wrapper. -/
theorem WorksInPlace.leaf {token : Token} {rest : List Tree}
    (alone : expressions.classify token = .symbol →
      ∀ elements others, rest ≠ .branch expressions.names.expression elements :: others)
    (works : expressions.WorksInPlace rest) : expressions.WorksInPlace (.leaf token :: rest) := by
  intro depth working
  have next := works depth (expressions.work working (expressions.leafStep token))
  rw [InPlace.sequence.eq_def, steps_leaf _ _ _ _ _ alone, List.foldl_cons]
  simp only [Tree.lastToken?_leaf, Option.some_or, InPlace.classify]
  cases kind : expressions.classify token with
  | operator operator =>
    rw [leafStep_of_operator kind] at next ⊢
    simp only [takeOperator_eq_ok, Tree.Misuse.ok_bind]
    exact next
  | literal =>
    rw [leafStep_of_value (.inl kind)] at next ⊢
    simp only [takeOperand_eq_ok, Tree.Misuse.ok_bind]
    exact next
  | symbol =>
    rw [leafStep_of_value (.inr kind)] at next ⊢
    cases rest with
    | nil =>
      simp only [takeOperand_eq_ok, Tree.Misuse.ok_bind]
      exact next
    | cons behind others =>
      have noWrapper : behind.isNamed expressions.names.expression = false := by
        cases behind with
        | leaf other => rfl
        | branch name elements =>
          have other : name ≠ expressions.names.expression := by
            rintro rfl
            exact alone kind elements others rfl
          simpa [Tree.isNamed] using other
      simp only [noWrapper, Bool.false_eq_true, if_false, takeOperand_eq_ok,
        Tree.Misuse.ok_bind]
      exact next
  | other =>
    rw [leafStep_of_other kind] at next ⊢
    simp only [report_inPlace expressions]
    exact next

/-- A wrapper behind a symbol is taken apart as an argument list. It has the name of wrappers and so
it is a branch, whose children can be taken. -/
theorem WorksInPlace.call {callee : Token} {elements others : List Tree}
    (symbol : expressions.classify callee = .symbol)
    (inner : ∀ name contents, .branch name contents ∈ elements →
      expressions.WorksInPlace contents)
    (works : expressions.WorksInPlace others) :
    expressions.WorksInPlace
      (.leaf callee :: .branch expressions.names.expression elements :: others) := by
  intro depth working
  have named : (Tree.branch expressions.names.expression elements).isNamed
      expressions.names.expression = true := by
    simp [Tree.isNamed]
  rw [InPlace.sequence.eq_def, steps_call _ _ _ _ symbol, List.foldl_cons]
  simp only [Tree.lastToken?_leaf, Option.some_or, InPlace.classify, symbol, named, if_true,
    call_eq_ok inner, takeOperand_eq_ok, Tree.Misuse.ok_bind]
  exact works depth _

/-- A wrapper that stands by itself is taken apart as a group. It is told by its name, and so it is
a branch, whose children can be taken. -/
theorem WorksInPlace.group {elements rest : List Tree}
    (inner : ∀ name contents, .branch name contents ∈ elements →
      expressions.WorksInPlace contents)
    (works : expressions.WorksInPlace rest) :
    expressions.WorksInPlace (.branch expressions.names.expression elements :: rest) := by
  intro depth working
  rw [InPlace.sequence.eq_def, steps_group, List.foldl_cons]
  simp only [InPlace.classify, if_true, Working.inPlace_seen, site_or, group_eq_ok inner,
    takeOperand_eq_ok, Tree.Misuse.ok_bind]
  exact works depth _

/-- A branch that is no wrapper is not taken apart. -/
theorem WorksInPlace.stray {name : String} {elements rest : List Tree}
    (stray : name ≠ expressions.names.expression) (works : expressions.WorksInPlace rest) :
    expressions.WorksInPlace (.branch name elements :: rest) := by
  intro depth working
  rw [InPlace.sequence.eq_def, steps_stray_eq _ _ _ stray, List.foldl_cons]
  simp only [InPlace.classify, if_neg stray, Working.inPlace_seen, site_or,
    report_inPlace expressions]
  exact works depth _

/-- Every run is worked off in place.

Proof: the induction follows the steps of the run, and goes into the elements of its wrappers,
which are runs of their own. -/
theorem worksInPlace (expressions : Expressions) (run : List Tree) :
    expressions.WorksInPlace run := by
  induction run using run_induction expressions with
  | nothing => exact worksInPlace_nil
  | leaf token rest alone works => exact works.leaf alone
  | call callee elements others symbol inner works => exact .call symbol inner works
  | group elements rest inner works => exact .group inner works
  | stray name elements rest stray works => exact works.stray stray

/-- Resolving a tree in place never misuses a tree and comes to what resolving it comes to. -/
theorem resolve_eq_ok (expressions : Expressions) (tree : Tree) :
    InPlace.resolve expressions tree = .ok (expressions.resolve tree) := by
  cases tree with
  | leaf token => exact (expressions.worksInPlace [.leaf token]).assemble 0 none
  | branch name children => exact (expressions.worksInPlace children).assemble 0 none

/-- Whatever the operators and the names of nodes are, the stack of a run is a block of operators
that wait, above a block of operands. Each of the first is a leaf of the run and takes an operand
on its right. Each of the others has as many open nodes at the top of its right spine as its
number says, made in this run for declared operators, and below them a complete operand or a
postfix node, which no operator goes into. No access to a tree fails on the way: worked off in
place, with access that requires a leaf, a branch or a child, the run comes to the same. -/
theorem stack_stays_tiered (expressions : Expressions) :
    (∀ depth seen run count, ∃ waiting operands,
      (((expressions.steps depth seen run).take count).foldl expressions.work { seen }).stack =
          waiting ++ operands ∧
        (∀ item ∈ waiting, item.Waits expressions run) ∧
        ∀ item ∈ operands, ∃ tree spine,
          item = .operand tree spine ∧ expressions.OpenSpine depth run tree spine) ∧
      ∀ tree, InPlace.resolve expressions tree = .ok (expressions.resolve tree) := by
  constructor
  · intro depth seen run count
    obtain ⟨waiting, operands, divided, wait, stand⟩ :=
      (expressions.stack_tiered depth seen run count).blocks
    refine ⟨waiting, operands, divided, wait, ?_⟩
    intro item member
    have made := stand item member
    cases item with
    | operand tree spine => exact ⟨tree, spine, rfl, made.openSpine⟩
    | pending leaf operator => exact absurd made id
  · exact expressions.resolve_eq_ok

end Parlance.Expressions
