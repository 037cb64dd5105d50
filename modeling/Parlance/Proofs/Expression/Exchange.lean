import Mathlib.Data.List.Forall2
import Parlance.Proofs.Expression.Grouping
import Parlance.Proofs.Expression.Origins

/-!
# Exchanging the values of a run

The stack looks at an operand only as far as the nodes on its right spine that were
made in the same run, and at the operators of these. So the values of a run can be
exchanged for other trees: the stack does the same with them, and the result is the
same tree with the other values in it. Tokens seen on the way only decide where a
diagnostic points, and never what is reported.
-/

namespace Parlance.Expressions

variable {expressions : Expressions} {fill : Tree → Tree}

/-! ## Maps that leave operators alone -/

/-- The tree is not a leaf that names an operator. -/
def Plain (expressions : Expressions) (tree : Tree) : Prop :=
  ∀ value ∈ tree.value?, expressions.operator? value = none

/-- A branch is not taken for an operator. -/
theorem plain_branch (name : String) (children : List Tree) :
    expressions.Plain (.branch name children) := by
  simp [Plain, Tree.value?]

/-- A leaf is not taken for an operator when its text is that of none. -/
theorem plain_leaf {token : Token} (undeclared : expressions.operator? token.value = none) :
    expressions.Plain (.leaf token) := by
  simpa [Plain, Tree.value?] using undeclared

/-- The map exchanges values: it goes through branches, leaves operators alone and makes
no operators. -/
structure Exchanges (expressions : Expressions) (fill : Tree → Tree) : Prop where
  branch : ∀ name children, fill (.branch name children) = .branch name (children.map fill)
  operator : ∀ leaf operator, expressions.operator? leaf.value = some operator →
    fill (.leaf leaf) = .leaf leaf
  plain : ∀ leaf, expressions.operator? leaf.value = none → expressions.Plain (fill (.leaf leaf))

/-- An exchange that changes nothing respects all that runs do. -/
theorem exchanges_id : expressions.Exchanges id :=
  ⟨by simp, fun _ _ _ => rfl, fun _ undeclared => plain_leaf undeclared⟩

/-- An entry of the stack with its values exchanged. -/
def Item.exchange (fill : Tree → Tree) : Item → Item
  | .operand tree spine => .operand (fill tree) spine
  | .pending leaf operator => .pending leaf operator

/-- A part of a run with its values exchanged. -/
def Part.exchange (fill : Tree → Tree) : Part → Part
  | .operator leaf declaration => .operator leaf declaration
  | .operand tree => .operand (fill tree)
  | .nothing => .nothing

/-- Where an operator stands in a node, the map leaves it, and where none stands, it puts
none. -/
theorem Exchanges.declared_eq (exchanges : expressions.Exchanges fill) (child : Tree) :
    (fill child).value?.bind expressions.operators.find? =
      child.value?.bind expressions.operators.find? := by
  cases child with
  | branch name children => simp [exchanges.branch, Tree.value?]
  | leaf token =>
    cases found : expressions.operator? token.value with
    | some operator => rw [exchanges.operator token operator found]
    | none =>
      have nowhere := exchanges.plain token found
      simp only [operator?] at found
      cases value : (fill (.leaf token)).value? with
      | none => simp [Tree.value?, found]
      | some other =>
        have missing : expressions.operators.find? other = none := nowhere other value
        simp [Tree.value?, found, missing]

/-- The precedence of a node does not depend on its values. Its operator is a child that is declared
as one, and such leaves are not exchanged. -/
theorem Exchanges.spinePrecedence?_eq (exchanges : expressions.Exchanges fill) (name : String)
    (children : List Tree) :
    expressions.spinePrecedence? (.branch name (children.map fill)) =
      expressions.spinePrecedence? (.branch name children) := by
  have operator (index : Nat) :
      ((children.map fill)[index]?.bind Tree.value?).bind expressions.operators.find? =
        (children[index]?.bind Tree.value?).bind expressions.operators.find? := by
    rw [List.getElem?_map]
    cases children[index]? with
    | none => rfl
    | some child => exact exchanges.declared_eq child
  unfold spinePrecedence?
  simp only
  split
  · rw [operator 1]
  · split
    · rw [operator 0]
    · rfl

/-! ## The open spine -/

/-- The first nodes on the right spine of the tree, as many as given, are branches. -/
inductive Open : Nat → Tree → Prop where
  | closed (tree : Tree) : Open 0 tree
  | node {spine : Nat} {name : String} {front : List Tree} {last : Tree} (below : Open spine last) :
      Open (spine + 1) (.branch name (front ++ [last]))

/-- One step of the walk down an open spine. -/
theorem graft_node (expressions : Expressions) (limit : Int) (make : Tree → Tree) (spine : Nat)
    (name : String) (front : List Tree) (last : Tree) :
    expressions.graft limit make (spine + 1) (.branch name (front ++ [last])) =
      if (expressions.spinePrecedence? (.branch name (front ++ [last]))).any (· < limit) then
        (.branch name (front ++ [(expressions.graft limit make spine last).1]),
          (expressions.graft limit make spine last).2 + 1)
      else (make (.branch name (front ++ [last])), 0) := by
  cases held : expressions.spinePrecedence? (.branch name (front ++ [last])) <;>
    simp [graft, held]

/-- Grafting goes the same way whatever the values are, and takes what stands there. By induction
over the length of the right edge. At every node the same precedence is met, so the walk ends at the
same node. -/
theorem Exchanges.graft_eq (exchanges : expressions.Exchanges fill) (limit : Int)
    (make other : Tree → Tree) (agree : ∀ tree, other (fill tree) = fill (make tree)) {spine : Nat}
    {tree : Tree} (opened : Open spine tree) :
    expressions.graft limit other spine (fill tree) =
      (fill (expressions.graft limit make spine tree).1,
        (expressions.graft limit make spine tree).2) := by
  induction opened with
  | closed tree => simp [graft, agree]
  | @node spine name front last below inductionHypothesis =>
    have whole : fill (.branch name (front ++ [last])) =
        .branch name (front.map fill ++ [fill last]) := by
      simp [exchanges.branch]
    have held := exchanges.spinePrecedence?_eq name (front ++ [last])
    rw [List.map_append, List.map_singleton] at held
    rw [whole, graft_node, graft_node, held, inductionHypothesis]
    split
    · simp [exchanges.branch]
    · rw [← whole, agree]

/-- The spine stays open down to the node that is grafted, and through it. By induction over the
spine, which gets longer by what is added at its end. -/
theorem graft_open (expressions : Expressions) (limit : Int) {make : Tree → Tree} {added : Nat}
    (opens : ∀ tree, Open added (make tree)) {spine : Nat} {tree : Tree}
    (opened : Open spine tree) :
    Open ((expressions.graft limit make spine tree).2 + added)
      (expressions.graft limit make spine tree).1 := by
  induction opened with
  | closed tree => simpa [graft] using opens tree
  | @node spine name front last below inductionHypothesis =>
    rw [graft_node]
    split
    · rw [Nat.add_right_comm]
      exact .node inductionHypothesis
    · simpa using opens _

/-- A tree that something is grafted on is a branch. It is made of an operator with its operands, or
was a node before. -/
theorem graft_plain (expressions : Expressions) (limit : Int) {make : Tree → Tree}
    (made : ∀ tree, expressions.Plain (make tree)) {spine : Nat} {tree : Tree}
    (opened : Open spine tree) :
    expressions.Plain (expressions.graft limit make spine tree).1 := by
  cases opened with
  | closed tree => exact made tree
  | node below =>
    rw [graft_node]
    split
    · exact plain_branch _ _
    · exact made _

/-- The entry is as the parts of a run leave it: an operand is open as far as it says and
no operator, and a waiting operator is a declared one. -/
def Item.Sound (expressions : Expressions) : Item → Prop
  | .operand tree spine => Open spine tree ∧ expressions.Plain tree
  | .pending leaf operator => expressions.operator? leaf.value = some operator

/-! ## The stack -/

/-- An operator leaves the entries of the stack sound. A suffix operator closes the right edge at
its own place, and the other operators wait on the stack. -/
theorem pushOperator_sound {stack : List Item} {leaf : Token} {operator : Operator}
    (sound : ∀ item ∈ stack, item.Sound expressions)
    (declared : expressions.operator? leaf.value = some operator) :
    ∀ item ∈ (expressions.pushOperator stack leaf operator).value, item.Sound expressions := by
  have pending : ∀ item ∈ Item.pending leaf operator :: stack, item.Sound expressions :=
    List.forall_mem_cons.mpr ⟨declared, sound⟩
  unfold pushOperator
  split
  · exact pending
  · exact pending
  · obtain ⟨⟨opened, _⟩, others⟩ := List.forall_mem_cons.mp sound
    refine List.forall_mem_cons.mpr ⟨⟨?_, ?_⟩, others⟩
    · exact expressions.graft_open operator.precedence (fun tree => .closed _) opened
    · exact expressions.graft_plain operator.precedence (fun tree => plain_branch _ _) opened
  · exact pending
  · exact sound

/-- An operand leaves the entries of the stack sound. By induction over the operators that take the
operand. A prefix operator adds a level to the right edge of its operand, and a binary one is
grafted into the operand on its left. -/
theorem pushOperand_sound {stack : List Item} {tree : Tree} {spine : Nat}
    (sound : ∀ item ∈ stack, item.Sound expressions)
    (own : (Item.operand tree spine).Sound expressions) :
    ∀ item ∈ (expressions.pushOperand stack tree spine).value, item.Sound expressions := by
  fun_induction pushOperand expressions stack tree spine with
  | case1 leaf operator tree spine isBinary left leftSpine below grafted depth equal =>
    obtain ⟨_, ⟨opened, _⟩, others⟩ := by simpa only [List.forall_mem_cons] using sound
    have binaryOpen (operand : Tree) : Open (spine + 1)
        (.branch expressions.names.binary [operand, .leaf leaf, tree]) :=
      @Open.node spine _ [operand, .leaf leaf] tree own.1
    have whole := expressions.graft_open operator.precedence binaryOpen opened
    have plain := expressions.graft_plain operator.precedence
      (fun operand => plain_branch expressions.names.binary [operand, .leaf leaf, tree]) opened
    rw [equal] at whole plain
    rw [show depth + (spine + 1) = depth + 1 + spine by omega] at whole
    exact List.forall_mem_cons.mpr ⟨⟨whole, plain⟩, others⟩
  | case2 leaf operator below tree spine isBinary noOperand inductionHypothesis =>
    exact inductionHypothesis (List.forall_mem_cons.mp sound).2 own
  | case3 leaf operator below tree spine notBinary inductionHypothesis =>
    refine inductionHypothesis (List.forall_mem_cons.mp sound).2 ⟨?_, plain_branch _ _⟩
    exact @Open.node spine _ [.leaf leaf] tree own.1
  | case4 => exact List.forall_mem_cons.mpr ⟨own, sound⟩

/-- Putting an operator on the stack does not depend on the values there. The only operand that is
looked at is the one under a suffix operator. It is looked at along its right edge, where all trees
are made by operators. -/
theorem Exchanges.pushOperator_eq (exchanges : expressions.Exchanges fill) {stack : List Item}
    {leaf : Token} {operator : Operator} (sound : ∀ item ∈ stack, item.Sound expressions)
    (declared : expressions.operator? leaf.value = some operator) :
    expressions.pushOperator (stack.map (Item.exchange fill)) leaf operator =
      { value := (expressions.pushOperator stack leaf operator).value.map (Item.exchange fill)
        diagnostics := (expressions.pushOperator stack leaf operator).diagnostics } := by
  cases stack with
  | nil => cases arity : operator.arity <;> simp [pushOperator, arity, Item.exchange]
  | cons item below =>
    cases item with
    | pending waiting held =>
      cases arity : operator.arity <;> simp [pushOperator, arity, Item.exchange]
    | operand tree spine =>
      have opened := (sound _ List.mem_cons_self).1
      have grafted := exchanges.graft_eq operator.precedence
        (fun operand => .branch expressions.names.unaryLeft [operand, .leaf leaf])
        (fun operand => .branch expressions.names.unaryLeft [operand, .leaf leaf])
        (fun operand => by simp [exchanges.branch, exchanges.operator leaf operator declared])
        opened
      cases arity : operator.arity <;> simp [pushOperator, arity, Item.exchange, grafted]

/-- Giving an operand to the operators that wait for it does not depend on the values.

Proof: the induction follows the waiting operators. Each is declared, so it stays as it
is in the node that it makes. -/
theorem Exchanges.pushOperand_eq (exchanges : expressions.Exchanges fill) {stack : List Item}
    {tree : Tree} {spine : Nat} (sound : ∀ item ∈ stack, item.Sound expressions) :
    expressions.pushOperand (stack.map (Item.exchange fill)) (fill tree) spine =
      { value := (expressions.pushOperand stack tree spine).value.map (Item.exchange fill)
        diagnostics := (expressions.pushOperand stack tree spine).diagnostics } := by
  fun_induction pushOperand expressions stack tree spine with
  | case1 leaf operator tree spine isBinary left leftSpine below grafted depth equal =>
    obtain ⟨declared, ⟨opened, _⟩, _⟩ := by simpa only [List.forall_mem_cons] using sound
    have result := exchanges.graft_eq operator.precedence
      (fun operand => .branch expressions.names.binary [operand, .leaf leaf, tree])
      (fun operand => .branch expressions.names.binary [operand, .leaf leaf, fill tree])
      (fun operand => by simp [exchanges.branch, exchanges.operator leaf operator declared])
      opened
    rw [equal] at result
    simp [pushOperand, isBinary, Item.exchange, result]
  | case2 leaf operator below tree spine isBinary noOperand inductionHypothesis =>
    have settled := inductionHypothesis (List.forall_mem_cons.mp sound).2
    have noOperandEither : ∀ left leftSpine others,
        below.map (Item.exchange fill) ≠ .operand left leftSpine :: others := by
      cases below with
      | nil => simp
      | cons item others =>
        cases item with
        | operand left leftSpine => exact absurd rfl (noOperand left leftSpine others)
        | pending waiting held => simp [Item.exchange]
    rw [List.map_cons, Item.exchange, pushOperand.eq_def]
    simp only [isBinary, if_true]
    rw [settled]
  | case3 leaf operator below tree spine notBinary inductionHypothesis =>
    obtain ⟨declared, others⟩ := List.forall_mem_cons.mp sound
    have joined : fill (.branch expressions.names.unaryRight [.leaf leaf, tree]) =
        .branch expressions.names.unaryRight [.leaf leaf, fill tree] := by
      simp [exchanges.branch, exchanges.operator leaf operator declared]
    have settled := inductionHypothesis others
    rw [joined] at settled
    rw [List.map_cons, Item.exchange, pushOperand.eq_def]
    simp only [notBinary, if_false]
    exact settled
  | case4 stack tree spine settled =>
    cases stack with
    | nil => rfl
    | cons item below =>
      cases item with
      | operand other otherSpine => rfl
      | pending waiting held => exact absurd rfl (settled waiting held below)

/-- A part leaves the entries of the stack sound. -/
theorem push_sound {stack : List Item} {part : Part}
    (sound : ∀ item ∈ stack, item.Sound expressions)
    (fits : part.Fits expressions expressions.Plain) :
    ∀ item ∈ (expressions.push stack part).value, item.Sound expressions := by
  cases part with
  | operator leaf operator => exact pushOperator_sound sound fits
  | operand tree => exact pushOperand_sound sound ⟨.closed tree, fits⟩
  | nothing => exact sound

/-- Putting a part on the stack does not depend on the values there or in the part. -/
theorem Exchanges.push_eq (exchanges : expressions.Exchanges fill) {stack : List Item} {part : Part}
    (sound : ∀ item ∈ stack, item.Sound expressions)
    (fits : part.Fits expressions expressions.Plain) :
    expressions.push (stack.map (Item.exchange fill)) (part.exchange fill) =
      { value := (expressions.push stack part).value.map (Item.exchange fill)
        diagnostics := (expressions.push stack part).diagnostics } := by
  cases part with
  | operator leaf operator => exact exchanges.pushOperator_eq sound fits
  | operand tree => exact exchanges.pushOperand_eq sound
  | nothing => rfl

/-! ## Runs -/

/-- The codes of diagnostics in their order. -/
def codes (diagnostics : List Diagnostic) : List String := diagnostics.map (·.id)

/-- The codes of two lists of diagnostics are those of the first and then those of the second. -/
theorem codes_append (first second : List Diagnostic) :
    codes (first ++ second) = codes first ++ codes second := List.map_append

/-- What is reported about a problem does not depend on the token. -/
theorem codes_diagnose (problem : Problem) (token other : Token) :
    codes [problem.diagnose token] = codes [problem.diagnose other] := by
  simp [codes, Problem.diagnose, Diagnostic.catalogued]

/-- The first step has the part of the second with its values exchanged, and the same
is reported about it, if not about the same token. -/
structure Step.Matches (fill : Tree → Tree) (first second : Step) : Prop where
  part : first.part = second.part.exchange fill
  codes : codes first.diagnostics = codes second.diagnostics

/-- Two runs that are at the same place but for their values. -/
structure Working.Matches (expressions : Expressions) (fill : Tree → Tree)
    (first second : Working) : Prop where
  stack : first.stack = second.stack.map (Item.exchange fill)
  codes : codes first.diagnostics = codes second.diagnostics
  sound : ∀ item ∈ second.stack, item.Sound expressions

/-- Steps that match lead from runs that match to runs that match. -/
theorem Exchanges.work_matches (exchanges : expressions.Exchanges fill) {first second : Working}
    (alike : Working.Matches expressions fill first second) {step other : Step}
    (same : step.Matches fill other) (fits : other.part.Fits expressions expressions.Plain) :
    Working.Matches expressions fill (expressions.work first step)
      (expressions.work second other) := by
  rw [work_eq, work_eq, same.part, alike.stack, exchanges.push_eq alike.sound fits]
  refine ⟨rfl, ?_, push_sound alike.sound fits⟩
  simp only [codes_append, alike.codes, same.codes]

/-- Finishing a run does not depend on its values or on the token seen last. What is left over is
replaced by an empty expression on both sides, with the same code in the report. -/
theorem Exchanges.finish_matches (exchanges : expressions.Exchanges fill) (stack : List Item)
    (seen lastSeen : Option Token) :
    (finish (stack.map (Item.exchange fill)) seen).value = fill (finish stack lastSeen).value ∧
      codes (finish (stack.map (Item.exchange fill)) seen).diagnostics =
        codes (finish stack lastSeen).diagnostics := by
  have empty : fill .empty = .empty := exchanges.branch "" []
  unfold finish
  match stack with
  | [] => exact ⟨empty.symm, rfl⟩
  | [.operand tree spine] => exact ⟨rfl, rfl⟩
  | .pending leaf operator :: below => exact ⟨empty.symm, rfl⟩
  | .operand tree spine :: item :: below => exact ⟨empty.symm, codes_diagnose _ _ _⟩

/-- Runs whose steps match have the same result but for the values. By induction over the steps, the
workings match at every point of the runs; then the stacks that are left are finished alike. -/
theorem Exchanges.assemble_matches (exchanges : expressions.Exchanges fill)
    {steps others : List Step} (alike : List.Forall₂ (Step.Matches fill) steps others)
    (fits : ∀ step ∈ others, step.part.Fits expressions expressions.Plain)
    (seen lastSeen : Option Token) :
    (expressions.assemble seen steps).value = fill (expressions.assemble lastSeen others).value ∧
      codes (expressions.assemble seen steps).diagnostics =
        codes (expressions.assemble lastSeen others).diagnostics := by
  have worked (first second : Working)
      (matched : Working.Matches expressions fill first second) :
      Working.Matches expressions fill (steps.foldl expressions.work first)
        (others.foldl expressions.work second) := by
    induction alike generalizing first second with
    | nil => exact matched
    | cons same _ inductionHypothesis =>
      obtain ⟨firstFits, othersFit⟩ := List.forall_mem_cons.mp fits
      exact inductionHypothesis othersFit _ _ (exchanges.work_matches matched same firstFits)
  have reached := worked { seen } { seen := lastSeen } ⟨rfl, rfl, by simp⟩
  have finished := exchanges.finish_matches
    (others.foldl expressions.work { seen := lastSeen }).stack
    (steps.foldl expressions.work { seen }).seen
    (others.foldl expressions.work { seen := lastSeen }).seen
  rw [← reached.stack] at finished
  refine ⟨finished.1, ?_⟩
  simp only [assemble, codes_append, reached.codes, finished.2]

/-- A run is never finished with a leaf that names an operator. -/
theorem finish_plain {stack : List Item} (sound : ∀ item ∈ stack, item.Sound expressions)
    (seen : Option Token) : expressions.Plain (finish stack seen).value := by
  unfold finish
  split
  · exact plain_branch _ _
  · exact (sound _ List.mem_cons_self).2
  · exact plain_branch _ _
  · exact plain_branch _ _

/-- The result of a run is not a leaf that names an operator. All entries of the stack stay sound
over the steps, and the result is one of them or empty. -/
theorem assemble_plain (expressions : Expressions) {steps : List Step}
    (fits : ∀ step ∈ steps, step.part.Fits expressions expressions.Plain) (seen : Option Token) :
    expressions.Plain (expressions.assemble seen steps).value := by
  have worked (working : Working) (sound : ∀ item ∈ working.stack, item.Sound expressions) :
      ∀ item ∈ (steps.foldl expressions.work working).stack, item.Sound expressions := by
    induction steps generalizing working with
    | nil => exact sound
    | cons step steps inductionHypothesis =>
      obtain ⟨first, others⟩ := List.forall_mem_cons.mp fits
      refine inductionHypothesis others _ ?_
      rw [work_eq]
      exact push_sound sound first
  exact finish_plain (worked { seen } (by simp)) _

/-! ## Steps -/

/-- A leaf that is no callee is a declared operator or no operator at all. The cases are the four
kinds of leaves. -/
theorem leafStep_fits (expressions : Expressions) (token : Token) :
    (expressions.leafStep token).part.Fits expressions expressions.Plain := by
  unfold leafStep leafPart
  simp only
  split
  · rename_i operator kind
    exact classify_eq_operator_iff.mp kind
  · rename_i kind
    exact plain_leaf (isValue_leaf_iff.mp ⟨token, rfl, .inl kind⟩).1
  · rename_i kind
    exact plain_leaf (isValue_leaf_iff.mp ⟨token, rfl, .inr kind⟩).1
  · trivial

/-- A call is a branch. -/
theorem call_plain (expressions : Expressions) (depth : Nat) (callee : Token)
    (elements : List Tree) : expressions.Plain (expressions.call depth callee elements).value := by
  unfold call
  simp only
  split
  · exact plain_branch _ _
  · split <;> exact plain_branch _ _

/-- A group is not a leaf that names an operator, as long as the run in it makes none. What is
refused leaves an empty expression behind, which is a branch. -/
theorem group_plain (expressions : Expressions) (depth : Nat) (seen : Option Token)
    (elements : List Tree)
    (inner : ∀ name contents place, elements = [.branch name contents] →
      ∀ step ∈ expressions.steps (depth + 1) (some place) contents,
        step.part.Fits expressions expressions.Plain) :
    expressions.Plain (expressions.group depth seen elements).value := by
  unfold group
  simp only
  split
  · rename_i name contents
    split
    · split
      · exact plain_branch _ _
      · exact expressions.assemble_plain (inner name contents _ rfl) _
    · exact plain_branch _ _
  · exact plain_branch _ _
  · exact plain_branch _ _

/-- The operators in the steps of a run are declared, and its operands are none. The induction is
the one over a run, by what its first tree is. -/
theorem steps_fit (expressions : Expressions) (depth : Nat) (seen : Option Token)
    (run : List Tree) :
    ∀ step ∈ expressions.steps depth seen run,
      step.part.Fits expressions expressions.Plain := by
  induction run using run_induction expressions generalizing depth seen with
  | nothing =>
    rw [steps]
    simp
  | leaf token rest alone inductionHypothesis =>
    rw [expressions.steps_leaf depth seen token rest alone]
    exact List.forall_mem_cons.mpr ⟨expressions.leafStep_fits token, inductionHypothesis depth _⟩
  | call callee elements others symbol _ inductionHypothesis =>
    rw [expressions.steps_call depth seen callee symbol]
    exact List.forall_mem_cons.mpr
      ⟨expressions.call_plain depth callee elements, inductionHypothesis depth _⟩
  | group elements rest inner inductionHypothesis =>
    have group := expressions.group_plain depth seen elements fun name contents place only =>
      inner name contents (by simp [only]) (depth + 1) (some place)
    rw [steps_group]
    exact List.forall_mem_cons.mpr ⟨group, inductionHypothesis depth _⟩
  | stray name elements rest stray inductionHypothesis =>
    rw [steps_stray_eq _ _ _ stray]
    exact List.forall_mem_cons.mpr ⟨trivial, inductionHypothesis depth _⟩

/-! ## The token seen last -/

/-- Two results that differ at most in the tokens that their diagnostics point at. -/
structure Alike {α : Type} (first second : Reported α) : Prop where
  value : first.value = second.value
  codes : codes first.diagnostics = codes second.diagnostics

/-- A run has the same result whatever was seen before it, as long as its steps do. -/
theorem assemble_alike (expressions : Expressions) {steps others : List Step}
    (alike : List.Forall₂ (Step.Matches id) steps others)
    (fits : ∀ step ∈ others, step.part.Fits expressions expressions.Plain)
    (seen lastSeen : Option Token) :
    Alike (expressions.assemble seen steps) (expressions.assemble lastSeen others) := by
  obtain ⟨value, reported⟩ := exchanges_id.assemble_matches alike fits seen lastSeen
  exact ⟨value, reported⟩

/-- A group does not depend on what was seen before it, as long as the run in it does
not. -/
theorem group_alike (expressions : Expressions) (depth : Nat) (seen lastSeen : Option Token)
    {elements : List Tree}
    (inner : ∀ name contents place other, elements = [.branch name contents] →
      List.Forall₂ (Step.Matches id) (expressions.steps (depth + 1) (some place) contents)
        (expressions.steps (depth + 1) (some other) contents)) :
    Alike (expressions.group depth seen elements) (expressions.group depth lastSeen elements) := by
  unfold group
  simp only
  split
  · rename_i name contents
    split
    · split
      · exact ⟨rfl, codes_diagnose _ _ _⟩
      · exact expressions.assemble_alike (inner name contents _ _ rfl)
          (expressions.steps_fit (depth + 1) _ contents) _ _
    · exact ⟨rfl, codes_diagnose _ _ _⟩
  · exact ⟨rfl, codes_diagnose _ _ _⟩
  · exact ⟨rfl, codes_diagnose _ _ _⟩

/-- An exchange that changes nothing leaves the parts of a run as they are. -/
theorem Part.exchange_id (part : Part) : part.exchange id = part := by
  cases part <;> rfl

/-- A step that differs from another at most in what was seen and in the tokens that its
diagnostics point at. -/
theorem matches_id {step other : Step} (part : step.part = other.part)
    (reported : codes step.diagnostics = codes other.diagnostics) : step.Matches id other :=
  ⟨by rw [part, Part.exchange_id], reported⟩

/-- The steps of a run do not depend on what was seen before it but for the tokens that
diagnostics point at. -/
theorem steps_alike (expressions : Expressions) (depth : Nat) (seen lastSeen : Option Token)
    (run : List Tree) :
    List.Forall₂ (Step.Matches id) (expressions.steps depth seen run)
      (expressions.steps depth lastSeen run) := by
  induction run using run_induction expressions generalizing depth seen lastSeen with
  | nothing =>
    rw [steps, steps]
    exact .nil
  | leaf token rest alone inductionHypothesis =>
    rw [steps_leaf _ _ _ _ _ alone, steps_leaf _ _ _ _ _ alone]
    exact .cons (matches_id rfl rfl) (inductionHypothesis depth _ _)
  | call callee elements others symbol inner inductionHypothesis =>
    rw [steps_call _ _ _ _ symbol, steps_call _ _ _ _ symbol]
    exact .cons (matches_id rfl rfl) (inductionHypothesis depth _ _)
  | group elements rest inner inductionHypothesis =>
    have group : Alike (expressions.group depth seen elements)
        (expressions.group depth lastSeen elements) := by
      refine expressions.group_alike depth seen lastSeen ?_
      intro name contents place other only
      exact inner name contents (by simp [only]) (depth + 1) (some place) (some other)
    rw [steps_group, steps_group]
    exact .cons (matches_id (by rw [group.value]) group.codes) (inductionHypothesis depth _ _)
  | stray name elements rest stray inductionHypothesis =>
    rw [steps_stray_eq _ _ _ stray, steps_stray_eq _ _ _ stray]
    exact .cons (matches_id rfl (codes_diagnose _ _ _)) (inductionHypothesis depth _ _)

end Parlance.Expressions
