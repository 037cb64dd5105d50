import Parlance.Proofs.Expression.Run

/-!
# Operator trees and how they are grouped

An operator tree is what a run of operands and operators means: operands that are
complete, and operators between, before and behind them. Each is written as a tree
in exactly one way once the names of the nodes are chosen.

A tree is grouped when operators take what the precedences say. To the right, an
operator takes nothing that binds as loosely as itself or more loosely; to the
left, it takes no node that binds more loosely than itself. Equal precedences
therefore group to the left.

Going down the right spine and putting an operator where the walk stops is the only
operation on such trees. It keeps a grouped tree grouped, and every grouped tree
with a binary or postfix operator arises by it from a smaller one, the operator
being the last of these in the text.
-/

namespace Parlance

namespace Expressions

/-- The declaration of the operator that a token names. It is only asked of tokens
that name one. -/
def declared (expressions : Expressions) (token : Token) : Operator :=
  (expressions.operator? token.value).getD { arity := .binary, precedence := 0 }

/-- The precedence of the operator that a token names. -/
def precedence (expressions : Expressions) (token : Token) : Int :=
  (expressions.declared token).precedence

/-- The token names a declared operator of one of the arities. -/
def Names (expressions : Expressions) (arities : List Arity) (token : Token) : Prop :=
  ∃ operator, expressions.operator? token.value = some operator ∧ operator.arity ∈ arities

end Expressions

/-- Operands with operators between, before and behind them. -/
inductive OperatorTree where
  /-- What is complete and never taken apart. -/
  | operand (tree : Tree)
  | binary (left : OperatorTree) (operator : Token) (right : OperatorTree)
  | before (operator : Token) (taken : OperatorTree)
  | behind (taken : OperatorTree) (operator : Token)

namespace OperatorTree

/-- The operator tree as a tree with the given names of nodes. -/
def toTree (names : NodeNames) : OperatorTree → Tree
  | .operand tree => tree
  | .binary left operator right =>
    .branch names.binary [left.toTree names, .leaf operator, right.toTree names]
  | .before operator taken => .branch names.unaryRight [.leaf operator, taken.toTree names]
  | .behind taken operator => .branch names.unaryLeft [taken.toTree names, .leaf operator]

/-- The leaves of a binary node: the operator stands between its operands. -/
@[simp] theorem leaves_toTree_binary (names : NodeNames) (left right : OperatorTree)
    (operator : Token) : ((OperatorTree.binary left operator right).toTree names).leaves =
      (left.toTree names).leaves ++ operator :: (right.toTree names).leaves := by
  simp [toTree, Tree.leaves, Tree.leavesAll]

/-- The leaves of a prefix node: the operator stands before its operand. -/
@[simp] theorem leaves_toTree_before (names : NodeNames) (operator : Token)
    (taken : OperatorTree) : ((OperatorTree.before operator taken).toTree names).leaves =
      operator :: (taken.toTree names).leaves := by
  simp [toTree, Tree.leaves, Tree.leavesAll]

/-- The leaves of a postfix node: the operator stands behind its operand. -/
@[simp] theorem leaves_toTree_behind (names : NodeNames) (taken : OperatorTree)
    (operator : Token) : ((OperatorTree.behind taken operator).toTree names).leaves =
      (taken.toTree names).leaves ++ [operator] := by
  simp [toTree, Tree.leaves, Tree.leavesAll]

/-- Every operator is declared for the place it stands at, and every operand is
`complete`. -/
def Placed (expressions : Expressions) (complete : Tree → Prop) : OperatorTree → Prop
  | .operand tree => complete tree
  | .binary left operator right =>
    expressions.Names [.binary] operator ∧ left.Placed expressions complete ∧
      right.Placed expressions complete
  | .before operator taken =>
    expressions.Names [.unaryRight, .unaryBoth] operator ∧ taken.Placed expressions complete
  | .behind taken operator =>
    expressions.Names [.unaryLeft, .unaryBoth] operator ∧ taken.Placed expressions complete

/-- Operands may be known to be more than complete. -/
theorem Placed.mono {expressions : Expressions} {complete weaker : Tree → Prop}
    (implies : ∀ tree, complete tree → weaker tree) {tree : OperatorTree}
    (placed : tree.Placed expressions complete) : tree.Placed expressions weaker := by
  induction tree with
  | operand tree => exact implies tree placed
  | binary left operator right leftHypothesis rightHypothesis =>
    exact ⟨placed.1, leftHypothesis placed.2.1, rightHypothesis placed.2.2⟩
  | before operator taken inductionHypothesis => exact ⟨placed.1, inductionHypothesis placed.2⟩
  | behind taken operator inductionHypothesis => exact ⟨placed.1, inductionHypothesis placed.2⟩

/-- The precedence of a node that takes an operand on its right. -/
def held? (expressions : Expressions) : OperatorTree → Option Int
  | .binary _ operator _ => some (expressions.precedence operator)
  | .before operator _ => some (expressions.precedence operator)
  | .operand _ | .behind .. => none

/-- The precedences of all nodes, at any depth, that take an operand on their
left. -/
def takers (expressions : Expressions) : OperatorTree → List Int
  | .operand _ => []
  | .binary left operator right =>
    left.takers expressions ++ expressions.precedence operator ::
      right.takers expressions
  | .before _ taken => taken.takers expressions
  | .behind taken operator =>
    taken.takers expressions ++ [expressions.precedence operator]

/-- At every node, all that takes an operand on its left inside the right operand
binds tighter than the node, and a left operand that takes an operand on its right
binds at least as tightly as the node. -/
def Grouped (expressions : Expressions) : OperatorTree → Prop
  | .operand _ => True
  | .binary left operator right =>
    (∀ inner ∈ right.takers expressions, expressions.precedence operator < inner) ∧
      (∀ held ∈ left.held? expressions, expressions.precedence operator ≤ held) ∧
      left.Grouped expressions ∧ right.Grouped expressions
  | .before operator taken =>
    (∀ inner ∈ taken.takers expressions, expressions.precedence operator < inner) ∧
      taken.Grouped expressions
  | .behind taken operator =>
    (∀ held ∈ taken.held? expressions, expressions.precedence operator ≤ held) ∧
      taken.Grouped expressions

/-- The number of nodes on the right spine before the first operand or postfix
node. -/
def spine : OperatorTree → Nat
  | .binary _ _ right => right.spine + 1
  | .before _ taken => taken.spine + 1
  | .operand _ | .behind .. => 0

/-- The operands and operators in the order of the text. -/
def parts (expressions : Expressions) : OperatorTree → List Expressions.Part
  | .operand tree => [.operand tree]
  | .binary left operator right =>
    left.parts expressions ++ .operator operator (expressions.declared operator) ::
      right.parts expressions
  | .before operator taken =>
    .operator operator (expressions.declared operator) :: taken.parts expressions
  | .behind taken operator =>
    taken.parts expressions ++ [.operator operator (expressions.declared operator)]

end OperatorTree

/-- What can be put behind an operand: a binary operator with its right operand, or a
postfix operator. -/
inductive Suffix where
  | binary (operator : Token) (right : OperatorTree)
  | behind (operator : Token)

namespace Suffix

/-- The operator that takes the operand before it. -/
def operator : Suffix → Token
  | .binary operator _ => operator
  | .behind operator => operator

/-- The node that the suffix makes of the operand before it. -/
def onto (tree : OperatorTree) : Suffix → OperatorTree
  | .binary operator right => .binary tree operator right
  | .behind operator => .behind tree operator

/-- The node that the suffix makes of a tree. -/
def ontoTree (names : NodeNames) (tree : Tree) : Suffix → Tree
  | .binary operator right => .branch names.binary [tree, .leaf operator, right.toTree names]
  | .behind operator => .branch names.unaryLeft [tree, .leaf operator]

/-- The operator is declared for its place. A right operand is still without
operators that take an operand on their left. -/
def Placed (expressions : Expressions) (complete : Tree → Prop) : Suffix → Prop
  | .binary operator right =>
    expressions.Names [.binary] operator ∧ right.Placed expressions complete ∧
      right.takers expressions = []
  | .behind operator => expressions.Names [.unaryLeft, .unaryBoth] operator

/-- The number of nodes that the suffix adds to the right spine. -/
def spine : Suffix → Nat
  | .binary _ right => right.spine + 1
  | .behind _ => 0

/-- The operands and operators of the suffix in the order of the text. -/
def parts (expressions : Expressions) : Suffix → List Expressions.Part
  | .binary operator right =>
    .operator operator (expressions.declared operator) :: right.parts expressions
  | .behind operator => [.operator operator (expressions.declared operator)]

end Suffix

namespace OperatorTree

/-- Go down the right spine while its nodes bind more loosely than the operator of
the suffix, and put the suffix behind the node reached. -/
def graft (expressions : Expressions) (suffix : Suffix) : OperatorTree → OperatorTree
  | .binary left operator right =>
    if expressions.precedence operator < expressions.precedence suffix.operator then
      .binary left operator (right.graft expressions suffix)
    else suffix.onto (.binary left operator right)
  | .before operator taken =>
    if expressions.precedence operator < expressions.precedence suffix.operator then
      .before operator (taken.graft expressions suffix)
    else suffix.onto (.before operator taken)
  | tree => suffix.onto tree

/-- The number of nodes that grafting goes down. -/
def descent (expressions : Expressions) (suffix : Suffix) : OperatorTree → Nat
  | .binary _ operator right =>
    if expressions.precedence operator < expressions.precedence suffix.operator then
      right.descent expressions suffix + 1
    else 0
  | .before operator taken =>
    if expressions.precedence operator < expressions.precedence suffix.operator then
      taken.descent expressions suffix + 1
    else 0
  | .operand _ | .behind .. => 0

variable {expressions : Expressions} {complete : Tree → Prop} {suffix : Suffix}

/-! ## Grafting -/

/-- Induction along the walk down the right spine. The walk stops at a node that takes
nothing on its right, or binds at least as tightly as the operator of the suffix; it
passes nodes that bind more loosely. -/
theorem walk_induction (expressions : Expressions) (suffix : Suffix)
    {motive : OperatorTree → Prop}
    (stops : ∀ tree : OperatorTree,
      (∀ held ∈ tree.held? expressions, expressions.precedence suffix.operator ≤ held) →
        motive tree)
    (passesBinary : ∀ left operator right,
      expressions.precedence operator < expressions.precedence suffix.operator →
        motive right → motive (.binary left operator right))
    (passesBefore : ∀ operator taken,
      expressions.precedence operator < expressions.precedence suffix.operator →
        motive taken → motive (.before operator taken))
    (tree : OperatorTree) : motive tree := by
  induction tree with
  | operand tree => exact stops _ (by simp [held?])
  | behind taken operator => exact stops _ (by simp [held?])
  | binary left operator right _ rightHypothesis =>
    by_cases looser : expressions.precedence operator < expressions.precedence suffix.operator
    · exact passesBinary left operator right looser rightHypothesis
    · exact stops _ (by simpa [held?] using looser)
  | before operator taken inductionHypothesis =>
    by_cases looser : expressions.precedence operator < expressions.precedence suffix.operator
    · exact passesBefore operator taken looser inductionHypothesis
    · exact stops _ (by simpa [held?] using looser)

/-- Where the walk stops at once, the suffix is put behind the whole tree, and nothing
is gone down. -/
theorem graft_stops (suffix : Suffix) {tree : OperatorTree}
    (tight : ∀ held ∈ tree.held? expressions, expressions.precedence suffix.operator ≤ held) :
    tree.graft expressions suffix = suffix.onto tree ∧ tree.descent expressions suffix = 0 := by
  cases tree with
  | operand tree => exact ⟨rfl, rfl⟩
  | behind taken operator => exact ⟨rfl, rfl⟩
  | binary left operator right =>
    have tighter := Int.not_lt.mpr (tight _ rfl)
    exact ⟨if_neg tighter, if_neg tighter⟩
  | before operator taken =>
    have tighter := Int.not_lt.mpr (tight _ rfl)
    exact ⟨if_neg tighter, if_neg tighter⟩

/-- Grafting puts the suffix behind all that is there. By induction over the walk, which only goes
down right edges. -/
theorem parts_graft (tree : OperatorTree) :
    (tree.graft expressions suffix).parts expressions =
      tree.parts expressions ++ suffix.parts expressions := by
  induction tree using walk_induction expressions suffix with
  | stops tree tight =>
    rw [(graft_stops suffix tight).1]
    cases suffix <;> rfl
  | passesBinary left operator right looser inductionHypothesis =>
    simp [graft, looser, parts, inductionHypothesis]
  | passesBefore operator taken looser inductionHypothesis =>
    simp [graft, looser, parts, inductionHypothesis]

/-- The right spine after grafting is what was gone down and what the suffix adds. By induction over
the walk, with one node of the edge for each step. -/
theorem spine_graft (tree : OperatorTree) :
    (tree.graft expressions suffix).spine = tree.descent expressions suffix + suffix.spine := by
  induction tree using walk_induction expressions suffix with
  | stops tree tight =>
    rw [(graft_stops suffix tight).1, (graft_stops suffix tight).2]
    cases suffix <;> simp [Suffix.onto, Suffix.spine, spine]
  | passesBinary left operator right looser inductionHypothesis =>
    simp only [graft, descent, looser, if_true, spine, inductionHypothesis]
    omega
  | passesBefore operator taken looser inductionHypothesis =>
    simp only [graft, descent, looser, if_true, spine, inductionHypothesis]
    omega

/-- Grafting adds the operator of the suffix to those that take an operand on their
left, and no other. -/
theorem mem_takers_graft (placed : suffix.Placed expressions complete) (tree : OperatorTree)
    (inner : Int) :
    inner ∈ (tree.graft expressions suffix).takers expressions ↔
      inner ∈ tree.takers expressions ∨ inner = expressions.precedence suffix.operator := by
  induction tree using walk_induction expressions suffix with
  | stops tree tight =>
    rw [(graft_stops suffix tight).1]
    cases suffix with
    | binary operator right => simp [Suffix.onto, takers, placed.2.2, Suffix.operator]
    | behind operator => simp [Suffix.onto, takers, Suffix.operator]
  | passesBinary left operator right looser inductionHypothesis =>
    simp [graft, looser, takers, inductionHypothesis, or_assoc]
  | passesBefore operator taken looser inductionHypothesis =>
    simpa [graft, looser, takers] using inductionHypothesis

/-- Grafting keeps every operator at the place it is declared for. By induction over the walk. Where
it stops, the suffix takes what stands there, and everything above that stays as it was. -/
theorem placed_graft (placed : suffix.Placed expressions complete) (tree : OperatorTree)
    (treePlaced : tree.Placed expressions complete) :
    (tree.graft expressions suffix).Placed expressions complete := by
  induction tree using walk_induction expressions suffix with
  | stops tree tight =>
    rw [(graft_stops suffix tight).1]
    cases suffix with
    | binary operator right => exact ⟨placed.1, treePlaced, placed.2.1⟩
    | behind operator => exact ⟨placed, treePlaced⟩
  | passesBinary left operator right looser inductionHypothesis =>
    simp only [graft, looser, if_true]
    exact ⟨treePlaced.1, treePlaced.2.1, inductionHypothesis treePlaced.2.2⟩
  | passesBefore operator taken looser inductionHypothesis =>
    simp only [graft, looser, if_true]
    exact ⟨treePlaced.1, inductionHypothesis treePlaced.2⟩

/-- A tree without operators that take an operand on their left is grouped. -/
theorem grouped_of_no_takers (tree : OperatorTree) (none : tree.takers expressions = []) :
    tree.Grouped expressions := by
  induction tree with
  | operand tree => trivial
  | behind taken operator => simp [takers] at none
  | binary left operator right => simp [takers] at none
  | before operator taken inductionHypothesis =>
    exact ⟨by simp [show taken.takers expressions = [] from none], inductionHypothesis none⟩

/-- Grafting keeps a tree grouped. The nodes that are passed bind more loosely than
the operator that is added inside them, and the node where the walk stops binds at
least as tightly as the operator that takes it. -/
theorem grouped_graft (placed : suffix.Placed expressions complete) (tree : OperatorTree)
    (grouped : tree.Grouped expressions) :
    (tree.graft expressions suffix).Grouped expressions := by
  have inside (operator : Token) (taken : OperatorTree)
      (looser : expressions.precedence operator < expressions.precedence suffix.operator)
      (before : ∀ inner ∈ taken.takers expressions, expressions.precedence operator < inner) :
      ∀ inner ∈ (taken.graft expressions suffix).takers expressions,
        expressions.precedence operator < inner := by
    intro inner member
    rcases (mem_takers_graft placed taken inner).mp member with old | rfl
    · exact before inner old
    · exact looser
  induction tree using walk_induction expressions suffix with
  | stops tree tight =>
    rw [(graft_stops suffix tight).1]
    cases suffix with
    | binary operator right =>
      exact ⟨by simp [placed.2.2], tight, grouped, right.grouped_of_no_takers placed.2.2⟩
    | behind operator => exact ⟨tight, grouped⟩
  | passesBinary left operator right looser inductionHypothesis =>
    obtain ⟨rightTight, leftTight, leftGrouped, rightGrouped⟩ := grouped
    simp only [graft, looser, if_true]
    exact ⟨inside operator right looser rightTight, leftTight, leftGrouped,
      inductionHypothesis rightGrouped⟩
  | passesBefore operator taken looser inductionHypothesis =>
    obtain ⟨tight, takenGrouped⟩ := grouped
    simp only [graft, looser, if_true]
    exact ⟨inside operator taken looser tight, inductionHypothesis takenGrouped⟩

/-- A grouped tree either has no operator that takes an operand on its left, or arises
by grafting from a smaller grouped tree: the suffix is the last such operator of the
text with what stands behind it.

Proof: the induction goes down the right spine. At a postfix node, and at a binary
node whose right operand has no such operator, the suffix is found, and the left
operand binds tightly enough for the walk to stop there. Further up, the suffix binds
tighter than every node on the way, because it stands inside their right operands. -/
theorem exists_graft (tree : OperatorTree) (placed : tree.Placed expressions complete)
    (grouped : tree.Grouped expressions) :
    tree.takers expressions = [] ∨
      ∃ (smaller : OperatorTree) (suffix : Suffix), suffix.Placed expressions complete ∧
        smaller.Placed expressions complete ∧ smaller.Grouped expressions ∧
        tree = smaller.graft expressions suffix := by
  induction tree with
  | operand tree => exact Or.inl rfl
  | behind taken operator =>
    exact Or.inr ⟨taken, .behind operator, placed.1, placed.2, grouped.2,
      (graft_stops (.behind operator) grouped.1).1.symm⟩
  | before operator taken inductionHypothesis =>
    rcases inductionHypothesis placed.2 grouped.2 with none | found
    · exact Or.inl none
    · obtain ⟨smaller, suffix, suffixPlaced, smallerPlaced, smallerGrouped, rfl⟩ := found
      have takers := mem_takers_graft suffixPlaced smaller
      have looser := grouped.1 _ ((takers _).mpr (Or.inr rfl))
      have tight : ∀ inner ∈ smaller.takers expressions, expressions.precedence operator < inner :=
        fun inner member => grouped.1 inner ((takers inner).mpr (Or.inl member))
      exact Or.inr ⟨.before operator smaller, suffix, suffixPlaced, ⟨placed.1, smallerPlaced⟩,
        ⟨tight, smallerGrouped⟩, by simp [graft, looser]⟩
  | binary left operator right _ rightHypothesis =>
    obtain ⟨named, leftPlaced, rightPlaced⟩ := placed
    obtain ⟨rightTight, leftTight, leftGrouped, rightGrouped⟩ := grouped
    rcases rightHypothesis rightPlaced rightGrouped with none | found
    · exact Or.inr ⟨left, .binary operator right, ⟨named, rightPlaced, none⟩, leftPlaced,
        leftGrouped, (graft_stops (.binary operator right) leftTight).1.symm⟩
    · obtain ⟨smaller, suffix, suffixPlaced, smallerPlaced, smallerGrouped, rfl⟩ := found
      have takers := mem_takers_graft suffixPlaced smaller
      have looser := rightTight _ ((takers _).mpr (Or.inr rfl))
      have tight : ∀ inner ∈ smaller.takers expressions, expressions.precedence operator < inner :=
        fun inner member => rightTight inner ((takers inner).mpr (Or.inl member))
      exact Or.inr ⟨.binary left operator smaller, suffix, suffixPlaced,
        ⟨named, leftPlaced, smallerPlaced⟩, ⟨tight, leftTight, leftGrouped, smallerGrouped⟩,
        by simp [graft, looser]⟩

end OperatorTree

/-! ## Grafting on trees -/

namespace Expressions

/-- The precedence of a token's operator is the declared one. -/
theorem declared_of_names {expressions : Expressions} {arities : List Arity} {token : Token}
    (named : expressions.Names arities token) :
    expressions.operators.find? token.value = some (expressions.declared token) ∧
      (expressions.declared token).arity ∈ arities := by
  obtain ⟨operator, found, member⟩ := named
  have same : expressions.declared token = operator := by simp [declared, found]
  exact ⟨same ▸ found, same ▸ member⟩

/-- One step of the walk at a binary node. A looser operator is passed, and the walk goes on in its
right operand; otherwise the node is what is taken. -/
theorem graft_binary {expressions : Expressions} {operator : Token}
    (named : expressions.Names [.binary] operator) (limit : Int) (make : Tree → Tree)
    (spine : Nat) (left right : Tree) :
    expressions.graft limit make (spine + 1)
        (.branch expressions.names.binary [left, .leaf operator, right]) =
      if expressions.precedence operator < limit then
        (.branch expressions.names.binary
          [left, .leaf operator, (expressions.graft limit make spine right).1],
          (expressions.graft limit make spine right).2 + 1)
      else (make (.branch expressions.names.binary [left, .leaf operator, right]), 0) := by
  have held : expressions.spinePrecedence?
      (.branch expressions.names.binary [left, .leaf operator, right]) =
        some (expressions.precedence operator) := by
    simp [spinePrecedence?, Tree.value?, (declared_of_names named).1, precedence]
  simp [graft, held]

/-- One step of the walk at a prefix node, which is told from a binary node by its
name. -/
theorem graft_before {expressions : Expressions} {operator : Token}
    (distinct : expressions.names.binary ≠ expressions.names.unaryRight)
    (named : expressions.Names [.unaryRight, .unaryBoth] operator) (limit : Int)
    (make : Tree → Tree) (spine : Nat) (taken : Tree) :
    expressions.graft limit make (spine + 1)
        (.branch expressions.names.unaryRight [.leaf operator, taken]) =
      if expressions.precedence operator < limit then
        (.branch expressions.names.unaryRight
          [.leaf operator, (expressions.graft limit make spine taken).1],
          (expressions.graft limit make spine taken).2 + 1)
      else (make (.branch expressions.names.unaryRight [.leaf operator, taken]), 0) := by
  have held : expressions.spinePrecedence?
      (.branch expressions.names.unaryRight [.leaf operator, taken]) =
        some (expressions.precedence operator) := by
    simp [spinePrecedence?, Tree.value?, (declared_of_names named).1, precedence, distinct.symm]
  simp [graft, held]

/-- Grafting a suffix on the tree of an operator tree, whose open nodes are those of
its right spine, is grafting it on the operator tree. -/
theorem graft_toTree {expressions : Expressions} {complete : Tree → Prop}
    (distinct : expressions.names.binary ≠ expressions.names.unaryRight) (suffix : Suffix)
    (tree : OperatorTree) (placed : tree.Placed expressions complete) :
    expressions.graft (expressions.precedence suffix.operator)
        (fun taken => suffix.ontoTree expressions.names taken) tree.spine
        (tree.toTree expressions.names) =
      ((tree.graft expressions suffix).toTree expressions.names,
        tree.descent expressions suffix) := by
  have onto (taken : OperatorTree) : suffix.ontoTree expressions.names
      (taken.toTree expressions.names) = (suffix.onto taken).toTree expressions.names := by
    cases suffix <;> rfl
  induction tree with
  | operand tree => simp [OperatorTree.spine, graft, onto, OperatorTree.graft, OperatorTree.descent]
  | behind taken operator =>
    simp [OperatorTree.spine, graft, onto, OperatorTree.graft, OperatorTree.descent]
  | binary left operator right _ rightHypothesis =>
    simp only [OperatorTree.spine, OperatorTree.toTree, graft_binary placed.1,
      rightHypothesis placed.2.2, OperatorTree.graft, OperatorTree.descent]
    split
    · rfl
    · exact congrArg (·, 0) (onto (.binary left operator right))
  | before operator taken inductionHypothesis =>
    simp only [OperatorTree.spine, OperatorTree.toTree, graft_before distinct placed.1,
      inductionHypothesis placed.2, OperatorTree.graft, OperatorTree.descent]
    split
    · rfl
    · exact congrArg (·, 0) (onto (.before operator taken))

end Expressions

end Parlance
