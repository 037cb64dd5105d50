import Parlance.Proofs.Expression.Exchange
import Parlance.Proofs.Expression.OperatorTree

/-!
# The open spine of an operand

The stack of a run holds operands, and above them the operators that wait for a right operand.
The number kept with an operand says how far an operator may go down its right spine: so many
nodes from the top are binary and prefix nodes that this run has made, and the node below them
is complete. It is a leaf, what a group or a call came to, or a postfix node.

A group comes to binary and prefix nodes too, and these look like the nodes that its run makes.
So what is kept is not read off the trees. `Made` follows the making of a tree: it begins with
the complete operands of the run, and each operator of the run that takes operands says what
becomes of the number. Every step of a run keeps it so, whatever the declared operators and the
names of nodes are. The names only matter for the precedences that are read off the open nodes.
-/

namespace Parlance

/-- The node reached by going so many times to the last child. -/
def Tree.downLast? : Nat → Tree → Option Tree
  | 0, tree => some tree
  | count + 1, tree => tree.children.getLast?.bind (downLast? count)

namespace Expressions

/-! ## What a run makes -/

/-- The complete operands of a run: leaves that count as values, what wrappers come to as
groups, and what symbols come to as calls with the wrappers behind them. A group or a call that
is out of order comes to the empty tree. -/
inductive Complete (expressions : Expressions) (depth : Nat) (run : List Tree) : Tree → Prop where
  | leaf {token : Token} (member : .leaf token ∈ run)
    (value : expressions.classify token = .literal ∨ expressions.classify token = .symbol) :
      Complete expressions depth run (.leaf token)
  | group {elements : List Tree} (seen : Option Token)
    (member : .branch expressions.names.expression elements ∈ run) :
      Complete expressions depth run (expressions.group depth seen elements).value
  | call {callee : Token} {elements : List Tree} (symbol : expressions.classify callee = .symbol)
    (adjacent : [.leaf callee, .branch expressions.names.expression elements] <:+: run) :
      Complete expressions depth run (expressions.call depth callee elements).value

/-- The token is a leaf of the run that names a declared operator of one of the arities. -/
def OperatorOf (expressions : Expressions) (run : List Tree) (arities : List Arity)
    (token : Token) : Prop :=
  .leaf token ∈ run ∧ expressions.Names arities token

/-- The trees that a run makes, with the number of nodes that are open at the top of the right
spine. A complete operand has none. A postfix node has none, whatever it takes. A prefix node
is open above what is open in its operand, and a binary node above what is open in its right
one. -/
inductive Made (expressions : Expressions) (depth : Nat) (run : List Tree) :
    Tree → Nat → Prop where
  | complete {tree : Tree} (complete : expressions.Complete depth run tree) :
      Made expressions depth run tree 0
  | behind {taken : Tree} {spine : Nat} {leaf : Token}
    (operator : expressions.OperatorOf run [.unaryLeft, .unaryBoth] leaf)
    (operand : Made expressions depth run taken spine) :
      Made expressions depth run (.branch expressions.names.unaryLeft [taken, .leaf leaf]) 0
  | before {taken : Tree} {spine : Nat} {leaf : Token}
    (operator : expressions.OperatorOf run [.unaryRight, .unaryBoth] leaf)
    (operand : Made expressions depth run taken spine) :
      Made expressions depth run (.branch expressions.names.unaryRight [.leaf leaf, taken])
        (spine + 1)
  | binary {left right : Tree} {leftSpine spine : Nat} {leaf : Token}
    (operator : expressions.OperatorOf run [.binary] leaf)
    (leftOperand : Made expressions depth run left leftSpine)
    (rightOperand : Made expressions depth run right spine) :
      Made expressions depth run (.branch expressions.names.binary [left, .leaf leaf, right])
        (spine + 1)

/-- The node is a binary or prefix node of the given operator of the run. -/
inductive OpenNode (expressions : Expressions) (run : List Tree) (leaf : Token) : Tree → Prop where
  | binary (left right : Tree) (operator : expressions.OperatorOf run [.binary] leaf) :
      OpenNode expressions run leaf (.branch expressions.names.binary [left, .leaf leaf, right])
  | before (taken : Tree) (operator : expressions.OperatorOf run [.unaryRight, .unaryBoth] leaf) :
      OpenNode expressions run leaf (.branch expressions.names.unaryRight [.leaf leaf, taken])

/-- The node is a complete operand of the run or a postfix node of one of its operators. -/
inductive ClosedNode (expressions : Expressions) (depth : Nat) (run : List Tree) :
    Tree → Prop where
  | complete {tree : Tree} (complete : expressions.Complete depth run tree) :
      ClosedNode expressions depth run tree
  | behind (taken : Tree) {leaf : Token}
    (operator : expressions.OperatorOf run [.unaryLeft, .unaryBoth] leaf) :
      ClosedNode expressions depth run (.branch expressions.names.unaryLeft [taken, .leaf leaf])

section

variable {expressions : Expressions} {depth : Nat} {run rest : List Tree} {tree : Tree}
  {spine : Nat}

/-- What is complete in the rest of a run is complete in the run. -/
theorem Complete.of_suffix (complete : expressions.Complete depth rest tree)
    (suffix : rest <:+ run) : expressions.Complete depth run tree := by
  cases complete with
  | leaf member value => exact .leaf (suffix.subset member) value
  | group seen member => exact .group seen (suffix.subset member)
  | call symbol adjacent => exact .call symbol (adjacent.trans suffix.isInfix)

/-- A tree without open nodes is a closed node. -/
theorem Made.closedNode (made : expressions.Made depth run tree 0) :
    expressions.ClosedNode depth run tree := by
  cases made with
  | complete complete => exact .complete complete
  | behind operator operand => exact .behind _ operator

/-- The top node of a tree with open nodes is open, and below its last child one node less is
open. -/
theorem Made.openNode (made : expressions.Made depth run tree (spine + 1)) :
    (∃ leaf, expressions.OpenNode run leaf tree) ∧
      ∃ last, tree.children.getLast? = some last ∧ expressions.Made depth run last spine := by
  cases made with
  | before operator operand => exact ⟨⟨_, .before _ operator⟩, _, rfl, operand⟩
  | binary operator leftOperand rightOperand =>
    exact ⟨⟨_, .binary _ _ operator⟩, _, rfl, rightOperand⟩

/-- Going down an open spine leads to trees that the run has made, with so many nodes less
open. -/
theorem Made.downLast? (made : expressions.Made depth run tree spine) {count : Nat}
    (within : count ≤ spine) :
    ∃ node, tree.downLast? count = some node ∧ expressions.Made depth run node (spine - count) := by
  induction count generalizing tree spine with
  | zero => exact ⟨tree, rfl, made⟩
  | succ count inductionHypothesis =>
    obtain ⟨spine, rfl⟩ : ∃ below, spine = below + 1 := ⟨spine - 1, by omega⟩
    obtain ⟨_, last, isLast, madeLast⟩ := made.openNode
    obtain ⟨node, reached, madeNode⟩ := inductionHypothesis madeLast (by omega)
    refine ⟨node, ?_, ?_⟩
    · rw [Tree.downLast?, isLast]
      exact reached
    · rwa [Nat.add_sub_add_right]

/-- Where binary and prefix nodes have different names, the precedence read off an open node is
that of its operator. -/
theorem OpenNode.spinePrecedence?_eq {leaf : Token} (opened : expressions.OpenNode run leaf tree)
    (distinct : expressions.names.binary ≠ expressions.names.unaryRight) :
    expressions.spinePrecedence? tree = some (expressions.precedence leaf) := by
  cases opened with
  | binary left right operator =>
    simp [spinePrecedence?, Tree.value?, (declared_of_names operator.2).1, precedence]
  | before taken operator =>
    simp [spinePrecedence?, Tree.value?, (declared_of_names operator.2).1, precedence,
      distinct.symm]

/-! ## Going down the spine -/

/-- Whatever is made of the node that the walk down the spine reaches, the walk goes down no
further than through the open nodes, and it replaces the node reached and no other one on the
way. -/
theorem graft_downLast? (expressions : Expressions) (limit : Int) (make : Tree → Tree)
    (spine : Nat) (tree : Tree) :
    (expressions.graft limit make spine tree).2 ≤ spine ∧
      (expressions.graft limit make spine tree).1.downLast?
          (expressions.graft limit make spine tree).2 =
        (tree.downLast? (expressions.graft limit make spine tree).2).map make := by
  induction spine generalizing tree with
  | zero => exact ⟨Nat.le_refl 0, rfl⟩
  | succ spine inductionHypothesis =>
    have stays : ∀ reached : Tree × Nat, reached = (make tree, 0) →
        reached.2 ≤ spine + 1 ∧ reached.1.downLast? reached.2 =
          (tree.downLast? reached.2).map make := by
      rintro _ rfl
      exact ⟨Nat.zero_le _, rfl⟩
    unfold graft
    split
    · rename_i held name children _
      split
      · rename_i last isLast
        split
        · obtain ⟨within, reached⟩ := inductionHypothesis last
          refine ⟨Nat.succ_le_succ within, ?_⟩
          simp only [Tree.downLast?, Tree.children, List.getLast?_concat, isLast,
            Option.bind_some]
          exact reached
        · exact stays _ rfl
      · exact stays _ rfl
    · exact stays _ rfl

/-- An operator that takes what the run has made goes down open nodes only, so the run has made
the result, with the nodes gone down and those of the new node open. -/
theorem Made.graft (made : expressions.Made depth run tree spine) (limit : Int) (added : Nat)
    {make : Tree → Tree}
    (makes : ∀ node below, expressions.Made depth run node below →
      expressions.Made depth run (make node) added) :
    expressions.Made depth run (expressions.graft limit make spine tree).1
      ((expressions.graft limit make spine tree).2 + added) := by
  induction made with
  | complete complete => simpa [Expressions.graft] using makes _ _ (.complete complete)
  | behind operator operand _ =>
    simpa [Expressions.graft] using makes _ _ (.behind operator operand)
  | @before taken spine leaf operator operand inductionHypothesis =>
    rw [← List.singleton_append, graft_node]
    split
    · rw [Nat.add_right_comm]
      exact .before operator inductionHypothesis
    · rw [Nat.zero_add]
      exact makes _ _ (.before operator operand)
  | @binary left right leftSpine spine leaf operator leftOperand rightOperand _
      inductionHypothesis =>
    have whole : [left, .leaf leaf, right] = [left, .leaf leaf] ++ [right] := rfl
    rw [whole, graft_node]
    split
    · rw [Nat.add_right_comm]
      exact .binary operator leftOperand inductionHypothesis
    · rw [Nat.zero_add]
      exact makes _ _ (.binary operator leftOperand rightOperand)

end

/-! ## The stack -/

/-- The entry is an operator of the run that takes an operand on its right. -/
def Item.Waits (expressions : Expressions) (run : List Tree) : Item → Prop
  | .operand _ _ => False
  | .pending leaf operator =>
    .leaf leaf ∈ run ∧ expressions.operator? leaf.value = some operator ∧
      operator.arity ∈ [.binary, .unaryRight, .unaryBoth]

/-- The entry is an operand that the run has made, with the number of its open nodes. -/
def Item.Stands (expressions : Expressions) (depth : Nat) (run : List Tree) : Item → Prop
  | .operand tree spine => expressions.Made depth run tree spine
  | .pending _ _ => False

/-- The stack from its top: operators that wait, above operands. -/
inductive Tiered (expressions : Expressions) (depth : Nat) (run : List Tree) :
    List Item → Prop where
  | operands {stack : List Item} (stand : ∀ item ∈ stack, item.Stands expressions depth run) :
      Tiered expressions depth run stack
  | waiting {item : Item} {below : List Item} (waits : item.Waits expressions run)
    (others : Tiered expressions depth run below) : Tiered expressions depth run (item :: below)

/-- What a part of a run is: an operator is a leaf of the run and comes with its declaration, and
an operand is complete. -/
def Part.Of (expressions : Expressions) (depth : Nat) (run : List Tree) : Part → Prop
  | .operator leaf declaration =>
    .leaf leaf ∈ run ∧ expressions.operator? leaf.value = some declaration
  | .operand tree => expressions.Complete depth run tree
  | .nothing => True

section

variable {expressions : Expressions} {depth : Nat} {run rest : List Tree} {stack below : List Item}
  {tree : Tree} {spine : Nat} {leaf : Token} {operator : Operator}

/-- Below an operator that waits the stack is again tiered, and the operator is one of the run. -/
theorem Tiered.of_pending
    (tiered : expressions.Tiered depth run (.pending leaf operator :: below)) :
    Item.Waits expressions run (.pending leaf operator) ∧ expressions.Tiered depth run below := by
  cases tiered with
  | operands stand => exact absurd (stand _ List.mem_cons_self) id
  | waiting waits others => exact ⟨waits, others⟩

/-- Below an operand there are operands only. -/
theorem Tiered.of_operand (tiered : expressions.Tiered depth run (.operand tree spine :: below)) :
    expressions.Made depth run tree spine ∧
      ∀ item ∈ below, item.Stands expressions depth run := by
  cases tiered with
  | operands stand => exact List.forall_mem_cons.mp stand
  | waiting waits others => exact absurd waits id

/-- An operand on top of entries that stand makes a tiered stack. -/
theorem tiered_operand (made : expressions.Made depth run tree spine)
    (stand : ∀ item ∈ below, item.Stands expressions depth run) :
    expressions.Tiered depth run (.operand tree spine :: below) :=
  .operands (List.forall_mem_cons.mpr ⟨made, stand⟩)

/-- An operator either waits on top, or takes the operand that it finds there. Whatever takes an
operand from its left is put on its right edge, so the tree on the stack is still an operand made of
the run. -/
theorem Tiered.pushOperator (tiered : expressions.Tiered depth run stack)
    (given : Part.Of expressions depth run (.operator leaf operator)) :
    expressions.Tiered depth run (expressions.pushOperator stack leaf operator).value := by
  have wait (arity : operator.arity ∈ [.binary, .unaryRight, .unaryBoth]) :
      expressions.Tiered depth run (.pending leaf operator :: stack) :=
    .waiting ⟨given.1, given.2, arity⟩ tiered
  unfold Expressions.pushOperator
  split
  · rename_i arity
    exact wait (by simp [arity])
  · rename_i arity
    exact wait (by simp [arity])
  · rename_i tree spine below notBinary notRight
    obtain ⟨made, stand⟩ := tiered.of_operand
    have named : expressions.OperatorOf run [.unaryLeft, .unaryBoth] leaf := by
      refine ⟨given.1, operator, given.2, ?_⟩
      cases arity : operator.arity <;> simp_all
    have grafted := made.graft operator.precedence 0
      (fun _ _ operand => Made.behind named operand)
    exact tiered_operand grafted stand
  · rename_i arity _
    exact wait (by simp [arity])
  · exact tiered

/-- An operand is given to the operators that wait, and the result comes to stand on operands.

Proof: the induction follows the waiting operators. A prefix operator takes the operand whole; a
binary operator takes it together with the operand below, going down the open nodes of that one;
a binary operator without an operand below is dropped. -/
theorem Tiered.pushOperand (tiered : expressions.Tiered depth run stack)
    (made : expressions.Made depth run tree spine) :
    expressions.Tiered depth run (expressions.pushOperand stack tree spine).value := by
  fun_induction Expressions.pushOperand expressions stack tree spine with
  | case1 leaf operator tree spine isBinary left leftSpine below grafted count reached =>
    obtain ⟨waits, others⟩ := tiered.of_pending
    obtain ⟨leftMade, stand⟩ := others.of_operand
    have named : expressions.OperatorOf run [.binary] leaf :=
      ⟨waits.1, operator, waits.2.1, by simp [isBinary]⟩
    have joined := leftMade.graft operator.precedence (spine + 1)
      (fun _ _ operand => Made.binary named operand made)
    rw [reached] at joined
    rw [show count + 1 + spine = count + (spine + 1) by omega]
    exact tiered_operand joined stand
  | case2 leaf operator below tree spine isBinary noOperand inductionHypothesis =>
    exact inductionHypothesis tiered.of_pending.2 made
  | case3 leaf operator below tree spine notBinary inductionHypothesis =>
    obtain ⟨waits, others⟩ := tiered.of_pending
    have named : expressions.OperatorOf run [.unaryRight, .unaryBoth] leaf := by
      refine ⟨waits.1, operator, waits.2.1, ?_⟩
      have arity := waits.2.2
      simp only [List.mem_cons, notBinary, false_or] at arity
      simpa using arity
    exact inductionHypothesis others (.before named made)
  | case4 stack tree spine settled =>
    cases tiered with
    | operands stand => exact tiered_operand made stand
    | waiting waits others =>
      rename_i item below
      cases item with
      | operand held count => exact absurd waits id
      | pending leaf operator => exact absurd rfl (settled leaf operator below)

/-- A step of a run keeps the stack in order, whatever it reports. -/
theorem Tiered.work {working : Working} (tiered : expressions.Tiered depth run working.stack)
    {step : Step} (given : step.part.Of expressions depth run) :
    expressions.Tiered depth run (expressions.work working step).stack := by
  obtain ⟨part, seen, diagnostics⟩ := step
  rw [work_eq]
  cases part with
  | operator leaf operator => exact tiered.pushOperator given
  | operand tree => exact tiered.pushOperand (.complete given)
  | nothing => exact tiered

/-- Steps keep the stack in order. -/
theorem Tiered.foldl_work {working : Working} (tiered : expressions.Tiered depth run working.stack)
    {steps : List Step} (given : ∀ step ∈ steps, step.part.Of expressions depth run) :
    expressions.Tiered depth run (steps.foldl expressions.work working).stack := by
  induction steps generalizing working with
  | nil => exact tiered
  | cons step steps inductionHypothesis =>
    obtain ⟨first, others⟩ := List.forall_mem_cons.mp given
    exact inductionHypothesis (tiered.work first) others

/-! ## The parts of a run -/

/-- A part of the end of a run is a part of the run. -/
theorem Part.Of.of_suffix {part : Part} (given : part.Of expressions depth rest)
    (suffix : rest <:+ run) : part.Of expressions depth run := by
  cases part with
  | operator leaf operator => exact ⟨suffix.subset given.1, given.2⟩
  | operand tree => exact Complete.of_suffix given suffix
  | nothing => trivial

/-- What a leaf of the run contributes is a part of the run. Its operator is the declared one, and
as a value it is a complete operand. -/
theorem leafPart_of {token : Token} (member : .leaf token ∈ run) :
    (expressions.leafPart token).Of expressions depth run := by
  unfold leafPart
  split
  · rename_i operator kind
    exact ⟨member, classify_eq_operator_iff.mp kind⟩
  · rename_i kind
    exact Complete.leaf member (.inl kind)
  · rename_i kind
    exact Complete.leaf member (.inr kind)
  · trivial

/-- The parts of a run are its operators and its complete operands. By induction over the run. The
parts of the rest of a run are parts of the whole run, where more stands in front of them. -/
theorem steps_of (expressions : Expressions) (depth : Nat) (seen : Option Token)
    (run : List Tree) :
    ∀ step ∈ expressions.steps depth seen run, step.part.Of expressions depth run := by
  have further (front : List Tree) {run : List Tree} {seen : Option Token}
      (given : ∀ seen, ∀ step ∈ expressions.steps depth seen run,
        step.part.Of expressions depth run) :
      ∀ step ∈ expressions.steps depth seen run, step.part.Of expressions depth (front ++ run) :=
    fun step member => (given seen step member).of_suffix (List.suffix_append front run)
  induction run using run_induction expressions generalizing seen with
  | nothing => simp [steps]
  | leaf token rest alone inductionHypothesis =>
    rw [steps_leaf _ _ _ _ _ alone, List.forall_mem_cons]
    exact ⟨leafPart_of List.mem_cons_self, further [_] inductionHypothesis⟩
  | call callee elements others symbol _ inductionHypothesis =>
    rw [steps_call _ _ _ _ symbol, List.forall_mem_cons]
    refine ⟨Complete.call symbol ?_, further [_, _] inductionHypothesis⟩
    exact (List.prefix_append [_, _] others).isInfix
  | group elements rest _ inductionHypothesis =>
    rw [steps_group, List.forall_mem_cons]
    exact ⟨Complete.group _ List.mem_cons_self, further [_] inductionHypothesis⟩
  | stray name elements rest stray inductionHypothesis =>
    rw [steps_stray_eq _ _ _ stray, List.forall_mem_cons]
    exact ⟨trivial, further [_] inductionHypothesis⟩

/-- After any number of steps, the stack of a run is in order. -/
theorem stack_tiered (expressions : Expressions) (depth : Nat) (seen : Option Token)
    (run : List Tree) (count : Nat) :
    expressions.Tiered depth run
      (((expressions.steps depth seen run).take count).foldl expressions.work { seen }).stack := by
  have begun : expressions.Tiered depth run (Working.stack { seen }) :=
    .operands (List.forall_mem_nil _)
  apply begun.foldl_work
  intro step member
  exact expressions.steps_of depth seen run step (List.mem_of_mem_take member)

/-! ## What is kept of an operand -/

/-- What holds of an operand with its number. So many nodes from the top of the right spine are
open: the run has made them for its declared operators, whose precedences are read off them where
binary and prefix nodes have different names. The node below these is closed. An operator goes
down no further than to this node, and replaces the node that it reaches. -/
structure OpenSpine (expressions : Expressions) (depth : Nat) (run : List Tree) (tree : Tree)
    (spine : Nat) : Prop where
  opened : ∀ place < spine, ∃ node leaf, tree.downLast? place = some node ∧
    expressions.Made depth run node (spine - place) ∧ expressions.OpenNode run leaf node ∧
    (expressions.names.binary ≠ expressions.names.unaryRight →
      expressions.spinePrecedence? node = some (expressions.precedence leaf))
  closed : ∃ node, tree.downLast? spine = some node ∧ expressions.ClosedNode depth run node
  walked : ∀ limit make, (expressions.graft limit make spine tree).2 ≤ spine ∧
    (expressions.graft limit make spine tree).1.downLast?
        (expressions.graft limit make spine tree).2 =
      (tree.downLast? (expressions.graft limit make spine tree).2).map make

/-- The nodes that a run has made at the top of an operand form an open spine, as far as the operand
says. -/
theorem Made.openSpine (made : expressions.Made depth run tree spine) :
    expressions.OpenSpine depth run tree spine := by
  constructor
  · intro place above
    obtain ⟨node, reached, madeNode⟩ := made.downLast? (Nat.le_of_lt above)
    have further : spine - place = spine - place - 1 + 1 := by omega
    obtain ⟨leaf, opened⟩ := (further ▸ madeNode).openNode.1
    exact ⟨node, leaf, reached, madeNode, opened, opened.spinePrecedence?_eq⟩
  · obtain ⟨node, reached, madeNode⟩ := made.downLast? (Nat.le_refl spine)
    rw [Nat.sub_self] at madeNode
    exact ⟨node, reached, madeNode.closedNode⟩
  · intro limit make
    exact expressions.graft_downLast? limit make spine tree

/-- The stack has two blocks. -/
theorem Tiered.blocks (tiered : expressions.Tiered depth run stack) :
    ∃ waiting operands, stack = waiting ++ operands ∧
      (∀ item ∈ waiting, item.Waits expressions run) ∧
      ∀ item ∈ operands, item.Stands expressions depth run := by
  induction tiered with
  | @operands stack stand => exact ⟨[], stack, rfl, List.forall_mem_nil _, stand⟩
  | @waiting item below waits others inductionHypothesis =>
    obtain ⟨waiting, operands, rfl, allWait, stand⟩ := inductionHypothesis
    exact ⟨item :: waiting, operands, rfl, List.forall_mem_cons.mpr ⟨waits, allWait⟩, stand⟩

end

end Expressions

end Parlance
