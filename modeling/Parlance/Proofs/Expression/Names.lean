import Mathlib.Data.Fintype.EquivFin
import Parlance.Proofs.Expression.Congruence

/-!
# The names of the nodes that are made

The names of nodes say to a reader what the nodes are. The stack reads two of them back: on its
way down a right spine it tells by the name of a node whether the operator stands between two
operands or before one. All other names are only written.

So the reports about a tree are the same whatever names are chosen, and the nodes are grouped
alike under two choices that both keep binary and prefix nodes apart, or both do not. Where the
two names coincide, the operand of a prefix node is read as its operator; no operand names an
operator, so a walk stops at every prefix node, even at one that binds more loosely. Names of
the two kinds therefore group some run differently exactly when some operator that takes the
operand before it binds tighter than some prefix operator.
-/

namespace Parlance

/-! ## Trees without names -/

namespace Tree

mutual

/-- The tree with the names of all its branches erased. -/
def unnamed : Tree → Tree
  | .leaf token => .leaf token
  | .branch _ children => .branch "" (unnamedAll children)

/-- Several trees with all names erased. -/
def unnamedAll : List Tree → List Tree
  | [] => []
  | tree :: trees => tree.unnamed :: unnamedAll trees

end

/-- The names of trees are erased one tree after the other. -/
theorem unnamedAll_eq_map (trees : List Tree) : unnamedAll trees = trees.map unnamed := by
  induction trees with
  | nil => rfl
  | cons tree trees inductionHypothesis => rw [unnamedAll, inductionHypothesis, List.map_cons]

/-- A leaf has no name to be erased. -/
@[simp] theorem unnamed_leaf (token : Token) : (leaf token).unnamed = .leaf token := rfl

/-- A branch loses its name, and so do the branches below it. -/
@[simp] theorem unnamed_branch (name : String) (children : List Tree) :
    (branch name children).unnamed = .branch "" (children.map unnamed) := by
  rw [unnamed, unnamedAll_eq_map]

/-- The text of a leaf does not depend on names. -/
@[simp] theorem value?_unnamed (tree : Tree) : tree.unnamed.value? = tree.value? := by
  cases tree <;> simp [value?]

/-- A tree with a token is not the empty one. -/
theorem isEmpty_eq_false {tree : Tree} (some : tree.leaves ≠ []) : tree.isEmpty = false := by
  cases tree with
  | leaf token => rfl
  | branch name children =>
    cases children with
    | nil => exact absurd rfl some
    | cons child others => rfl

end Tree

namespace Expressions

variable {expressions : Expressions} {names : NodeNames}

/-! ## The same tokens -/

/-- The trees have the same tokens, and they are empty alike. -/
inductive SameTokens : Tree → Tree → Prop where
  | nothing : SameTokens .empty .empty
  | tokens {tree other : Tree} (same : tree.leaves = other.leaves) (some : tree.leaves ≠ []) :
    SameTokens tree other

/-- Trees that are related have the same leaves, also where both are empty. -/
theorem SameTokens.leaves_eq {tree other : Tree} (same : SameTokens tree other) :
    tree.leaves = other.leaves := by
  cases same with
  | nothing => rfl
  | tokens same some => exact same

/-- Trees that are related are empty alike, since a tree with leaves is not empty. -/
theorem SameTokens.isEmpty_eq {tree other : Tree} (same : SameTokens tree other) :
    tree.isEmpty = other.isEmpty := by
  cases same with
  | nothing => rfl
  | tokens same some =>
    rw [Tree.isEmpty_eq_false some, Tree.isEmpty_eq_false (same ▸ some)]

/-- An operator in front of related trees makes related nodes, whatever their names are. -/
theorem SameTokens.before {tree other : Tree} (same : SameTokens tree other) (leaf : Token)
    (name otherName : String) :
    SameTokens (.branch name [.leaf leaf, tree]) (.branch otherName [.leaf leaf, other]) := by
  refine .tokens ?_ (by simp [Tree.leaves, Tree.leavesAll])
  simp [Tree.leaves, Tree.leavesAll, same.leaves_eq]

/-- Grafting adds the same tokens, wherever the two walks stop. Wherever a walk stops, the tokens of
its operand come first and the added ones behind them. -/
theorem SameTokens.graft (first second : Expressions) (limit : Int) {make otherMake : Tree → Tree}
    {added : List Token} (some : added ≠ [])
    (adds : ∀ tree, (make tree).leaves = tree.leaves ++ added)
    (otherAdds : ∀ tree, (otherMake tree).leaves = tree.leaves ++ added) (spine otherSpine : Nat)
    {tree other : Tree} (same : SameTokens tree other) :
    SameTokens (first.graft limit make spine tree).1
      (second.graft limit otherMake otherSpine other).1 := by
  have here := first.graft_leaves limit make added adds spine tree
  have there := second.graft_leaves limit otherMake added otherAdds otherSpine other
  refine .tokens ?_ ?_
  · rw [here, there, same.leaves_eq]
  · rw [here]
    exact List.append_ne_nil_of_right_ne_nil _ some

/-- An operator between related trees makes related nodes, wherever in the left one the node is put:
grafting keeps the leaves and their order. -/
theorem SameTokens.binary {tree other right otherRight : Tree} (same : SameTokens tree other)
    (sameRight : SameTokens right otherRight) (first second : Expressions) (limit : Int)
    (leaf : Token) (name otherName : String) (spine otherSpine : Nat) :
    SameTokens
      (first.graft limit (fun operand => .branch name [operand, .leaf leaf, right]) spine tree).1
      (second.graft limit (fun operand => .branch otherName [operand, .leaf leaf, otherRight])
        otherSpine other).1 := by
  refine same.graft first second limit (List.cons_ne_nil leaf right.leaves) ?_ ?_ spine otherSpine
  · simp [Tree.leaves, Tree.leavesAll]
  · simp [Tree.leaves, Tree.leavesAll, sameRight.leaves_eq]

/-- Having the same tokens is respected by all that runs do, under any two choices of names. Names
give the branches their names and nothing else, while the tokens of a branch are those of its
children in any case. -/
theorem sameTokens_congruence (expressions : Expressions) (names : NodeNames) :
    Congruence expressions names (fun tree _ other _ => SameTokens tree other) where
  complete := fun same => same
  leaves := fun same => same.leaves_eq
  isEmpty := fun same => same.isEmpty_eq
  empty := .nothing
  value := fun _ => .tokens rfl (List.cons_ne_nil _ _)
  call := by
    intro callee given others same
    have arguments : Tree.leavesAll given = Tree.leavesAll others := by
      induction same with
      | nil => rfl
      | cons first _ inductionHypothesis =>
        rw [Tree.leavesAll, Tree.leavesAll, first.leaves_eq, inductionHypothesis]
    refine .tokens ?_ (by simp [Tree.leaves, Tree.leavesAll])
    simp [Tree.leaves, Tree.leavesAll, arguments]
  before := by
    intro leaf operator _ _ tree other _ _ same
    exact same.before leaf _ _
  behind := by
    intro leaf operator _ _ tree other spine otherSpine same
    exact same.graft expressions (expressions.renamed names) operator.precedence
      (List.cons_ne_nil leaf []) (fun _ => by simp [Tree.leaves, Tree.leavesAll])
      (fun _ => by simp [Tree.leaves, Tree.leavesAll]) spine otherSpine
  binary := by
    intro leaf operator _ _ tree other right otherRight spine otherSpine _ _ same sameRight
    exact same.binary sameRight _ _ _ leaf _ _ spine otherSpine

/-! ## The same grouping -/

/-- Some operator takes the operand before it and binds tighter than a prefix operator, so that
it is to go into the node of the prefix operator. -/
def EntersPrefix (expressions : Expressions) : Prop :=
  ∃ first before second taker,
    expressions.operator? first = some before ∧
    before.arity ∈ [.unaryRight, .unaryBoth] ∧
    expressions.operator? second = some taker ∧
    taker.arity ∈ [.binary, .unaryLeft, .unaryBoth] ∧
    before.precedence < taker.precedence

/-- Both choices of names tell binary and prefix nodes apart, or neither does. It only matters
where an operator is to go into the node of a prefix operator. -/
def ReadAlike (expressions : Expressions) (names : NodeNames) : Prop :=
  expressions.EntersPrefix →
    (names.binary = names.unaryRight ↔ expressions.names.binary = expressions.names.unaryRight)

/-- The precedence of a binary node is that of its operator. -/
theorem spinePrecedence?_binary (expressions : Expressions) {leaf : Token} {operator : Operator}
    (declared : expressions.operator? leaf.value = some operator) (left right : Tree) :
    expressions.spinePrecedence? (.branch expressions.names.binary [left, .leaf leaf, right]) =
      some operator.precedence := by
  simp only [operator?] at declared
  simp [spinePrecedence?, Tree.value?, declared]

/-- The precedence of a prefix node is that of its operator where its name tells it from a
binary node. Otherwise the operand is read as the operator, and it is none. -/
theorem spinePrecedence?_before (expressions : Expressions) {leaf : Token} {operator : Operator}
    (declared : expressions.operator? leaf.value = some operator) {tree : Tree}
    (plain : expressions.Plain tree) :
    expressions.spinePrecedence? (.branch expressions.names.unaryRight [.leaf leaf, tree]) =
      if expressions.names.binary = expressions.names.unaryRight then none
      else some operator.precedence := by
  by_cases coincide : expressions.names.binary = expressions.names.unaryRight
  · have nowhere : tree.value?.bind expressions.operators.find? = none := by
      rw [Option.bind_eq_none_iff]
      exact plain
    simp [spinePrecedence?, coincide, nowhere]
  · simp only [operator?] at declared
    simp [spinePrecedence?, Tree.value?, declared, Ne.symm coincide, coincide]

/-- Two trees that are equal up to names, the given number of nodes at the top of their right
spines being made by the same binary and prefix operators. -/
inductive Twin (expressions : Expressions) (names : NodeNames) : Nat → Tree → Tree → Prop where
  | closed {tree other : Tree} (same : tree.unnamed = other.unnamed)
    (plain : expressions.Plain tree) : Twin expressions names 0 tree other
  | binary {spine : Nat} {left otherLeft right otherRight : Tree} {leaf : Token}
    {operator : Operator} (declared : expressions.operator? leaf.value = some operator)
    (same : left.unnamed = otherLeft.unnamed)
    (below : Twin expressions names spine right otherRight) :
    Twin expressions names (spine + 1)
      (.branch expressions.names.binary [left, .leaf leaf, right])
      (.branch names.binary [otherLeft, .leaf leaf, otherRight])
  | before {spine : Nat} {tree other : Tree} {leaf : Token} {operator : Operator}
    (declared : expressions.operator? leaf.value = some operator)
    (isPrefix : operator.arity ∈ [.unaryRight, .unaryBoth])
    (below : Twin expressions names spine tree other) :
    Twin expressions names (spine + 1) (.branch expressions.names.unaryRight [.leaf leaf, tree])
      (.branch names.unaryRight [.leaf leaf, other])

/-- Trees that are twins are equal when their names are erased. -/
theorem Twin.unnamed_eq {spine : Nat} {tree other : Tree}
    (twin : Twin expressions names spine tree other) : tree.unnamed = other.unnamed := by
  induction twin with
  | closed same plain => exact same
  | binary declared same below inductionHypothesis => simp [same, inductionHypothesis]
  | before declared isPrefix below inductionHypothesis => simp [inductionHypothesis]

/-- A tree that has a twin is not taken for an operator. -/
theorem Twin.plain {spine : Nat} {tree other : Tree}
    (twin : Twin expressions names spine tree other) : expressions.Plain tree := by
  cases twin with
  | closed same plain => exact plain
  | binary declared same below => exact plain_branch _ _
  | before declared isPrefix below => exact plain_branch _ _

/-- Neither of the two trees is a leaf that names an operator. -/
theorem Twin.plain_other {spine : Nat} {tree other : Tree}
    (twin : Twin expressions names spine tree other) :
    (expressions.renamed names).Plain other := by
  intro value held
  refine twin.plain value ?_
  rw [← Tree.value?_unnamed, twin.unnamed_eq, Tree.value?_unnamed]
  exact held

/-- Grafting goes equally far down two trees and leaves twins behind, the nodes that it makes
having `added` open ones at their top. -/
def GraftsAlike (expressions : Expressions) (names : NodeNames) (limit : Int)
    (make otherMake : Tree → Tree) (added spine : Nat) (tree other : Tree) : Prop :=
  let made := expressions.graft limit make spine tree
  let otherMade := (expressions.renamed names).graft limit otherMake spine other
  made.2 = otherMade.2 ∧ Twin expressions names (made.2 + added) made.1 otherMade.1

/-- One step of the walk down twin trees: where both walks find the same answer at a node, both
go on or both stop. -/
theorem Twin.graftsAlike_node {limit : Int} {make otherMake : Tree → Tree} {added : Nat}
    (makes : ∀ tree other, tree.unnamed = other.unnamed →
      Twin expressions names added (make tree) (otherMake other))
    {name otherName : String} (front otherFront : List Tree)
    (node : ∀ {spine tree other}, Twin expressions names spine tree other →
      Twin expressions names (spine + 1) (.branch name (front ++ [tree]))
        (.branch otherName (otherFront ++ [other])))
    {spine : Nat} {tree other : Tree} (below : Twin expressions names spine tree other)
    (answer : (expressions.spinePrecedence? (.branch name (front ++ [tree]))).any (· < limit) =
      ((expressions.renamed names).spinePrecedence?
        (.branch otherName (otherFront ++ [other]))).any (· < limit))
    (inside : GraftsAlike expressions names limit make otherMake added spine tree other) :
    GraftsAlike expressions names limit make otherMake added (spine + 1)
      (.branch name (front ++ [tree])) (.branch otherName (otherFront ++ [other])) := by
  unfold GraftsAlike
  rw [graft_node, graft_node, ← answer]
  split
  · refine ⟨congrArg (· + 1) inside.1, ?_⟩
    rw [Nat.add_right_comm]
    exact node inside.2
  · refine ⟨rfl, ?_⟩
    rw [Nat.zero_add]
    exact makes _ _ (node below).unnamed_eq

/-- Grafting goes the same way down twin trees, and leaves twin trees behind.

Proof: the induction follows the open nodes. At a binary node both walks read the precedence of
the same operator. At a prefix node both read it, or neither does; or the two read it
differently, and then the operator that is grafted does not bind tighter, so that both walks
stop. -/
theorem Twin.graftsAlike (alike : expressions.ReadAlike names) {taking : Token} {taker : Operator}
    (declared : expressions.operator? taking.value = some taker)
    (takes : taker.arity ∈ [.binary, .unaryLeft, .unaryBoth]) {make otherMake : Tree → Tree}
    {added : Nat}
    (makes : ∀ tree other, tree.unnamed = other.unnamed →
      Twin expressions names added (make tree) (otherMake other))
    {spine : Nat} {tree other : Tree} (twin : Twin expressions names spine tree other) :
    GraftsAlike expressions names taker.precedence make otherMake added spine tree other := by
  induction twin with
  | closed same plain =>
    refine ⟨rfl, ?_⟩
    simpa [graft] using makes _ _ same
  | @binary spine left otherLeft right otherRight leaf operator own same below
      inductionHypothesis =>
    have node {spine : Nat} {tree other : Tree} :=
      @Twin.binary expressions names spine left otherLeft tree other leaf operator own same
    have here := expressions.spinePrecedence?_binary own left right
    have there := (expressions.renamed names).spinePrecedence?_binary own otherLeft otherRight
    refine Twin.graftsAlike_node makes [left, .leaf leaf] [otherLeft, .leaf leaf] node below ?_
      inductionHypothesis
    exact congrArg (Option.any _) (here.trans there.symm)
  | @before spine tree other leaf operator own isPrefix below inductionHypothesis =>
    have node {spine : Nat} {tree other : Tree} :=
      @Twin.before expressions names spine tree other leaf operator own isPrefix
    have here := expressions.spinePrecedence?_before own below.plain
    have there := (expressions.renamed names).spinePrecedence?_before own below.plain_other
    refine Twin.graftsAlike_node makes [.leaf leaf] [.leaf leaf] node below ?_ inductionHypothesis
    refine (congrArg (Option.any _) here).trans (Eq.trans ?_ (congrArg (Option.any _) there.symm))
    by_cases looser : operator.precedence < taker.precedence
    · have enters : expressions.EntersPrefix :=
        ⟨_, operator, _, taker, own, isPrefix, declared, takes, looser⟩
      simp only [alike enters]
    · split <;> split <;> simp [looser]

/-- Being twins, with the same tokens, is respected by all that runs do under choices of names
that are read alike. -/
theorem twin_congruence (alike : expressions.ReadAlike names) :
    Congruence expressions names (fun tree spine other otherSpine =>
      SameTokens tree other ∧ spine = otherSpine ∧ Twin expressions names spine tree other) where
  complete := by
    rintro tree other spine _ ⟨same, rfl, twin⟩
    exact ⟨same, rfl, .closed twin.unnamed_eq twin.plain⟩
  leaves := fun related => related.1.leaves_eq
  isEmpty := fun related => related.1.isEmpty_eq
  empty := ⟨.nothing, rfl, .closed rfl (plain_branch _ _)⟩
  value := by
    intro token undeclared
    have same := (sameTokens_congruence expressions names).value undeclared
    exact ⟨same, rfl, .closed rfl (plain_leaf undeclared)⟩
  call := by
    intro callee given others related
    have arguments : given.map Tree.unnamed = others.map Tree.unnamed := by
      rw [← List.forall₂_eq_eq_eq, List.forall₂_map_left_iff, List.forall₂_map_right_iff]
      exact related.imp fun _ _ ⟨_, _, twin⟩ => twin.unnamed_eq
    constructor
    · apply (sameTokens_congruence expressions names).call
      exact related.imp fun _ _ related => related.1
    · exact ⟨rfl, .closed (by simp [arguments]) (plain_branch _ _)⟩
  before := by
    rintro leaf operator declared isPrefix tree other spine _ ⟨same, rfl, twin⟩
    exact ⟨same.before leaf _ _, rfl, .before declared isPrefix twin⟩
  behind := by
    rintro leaf operator declared isSuffix tree other spine _ ⟨same, rfl, twin⟩
    have makes (taken otherTaken : Tree) (sameTaken : taken.unnamed = otherTaken.unnamed) :
        Twin expressions names 0 (.branch expressions.names.unaryLeft [taken, .leaf leaf])
          (.branch names.unaryLeft [otherTaken, .leaf leaf]) :=
      .closed (by simp [sameTaken]) (plain_branch _ _)
    have grafted := twin.graftsAlike alike declared (List.mem_cons_of_mem _ isSuffix) makes
    constructor
    · exact (sameTokens_congruence expressions names).behind declared isSuffix same
    · exact grafted
  binary := by
    rintro leaf operator declared isBinary tree other right otherRight spine _ rightSpine _
      ⟨same, rfl, twin⟩ ⟨sameRight, rfl, twinRight⟩
    have grafted := twin.graftsAlike alike declared (by simp [isBinary])
      fun taken otherTaken sameTaken => .binary declared sameTaken twinRight
    have opened := grafted.2
    rw [Nat.add_comm rightSpine 1, ← Nat.add_assoc] at opened
    constructor
    · exact same.binary sameRight _ _ _ leaf _ _ spine spine
    · exact ⟨congrArg (· + 1 + rightSpine) grafted.1, opened⟩

/-! ## Where the grouping differs -/

/-- Some text names no operator. -/
theorem exists_undeclared (expressions : Expressions) :
    ∃ text, expressions.operator? text = none := by
  obtain ⟨text, fresh⟩ := Infinite.exists_notMem_finset expressions.operators.keys.toFinset
  refine ⟨text, ?_⟩
  rw [operator?, Dictionary.find?, List.lookup_eq_none_iff]
  intro entry member
  rw [bne_iff_ne]
  rintro rfl
  exact fresh (List.mem_toFinset.mpr (List.mem_map_of_mem member))

/-- A walk from a prefix node with an operand goes into the node of a looser prefix operator,
unless the node has the name of binary nodes. -/
theorem graft_beforeOperand (expressions : Expressions) {leaf : Token} {operator : Operator}
    (declared : expressions.operator? leaf.value = some operator) {limit : Int}
    (looser : operator.precedence < limit) (make : Tree → Tree) {tree : Tree}
    (plain : expressions.Plain tree) :
    expressions.graft limit make 1 (.branch expressions.names.unaryRight [.leaf leaf, tree]) =
      if expressions.names.binary = expressions.names.unaryRight then
        (make (.branch expressions.names.unaryRight [.leaf leaf, tree]), 0)
      else (.branch expressions.names.unaryRight [.leaf leaf, make tree], 1) := by
  have walked := expressions.graft_node limit make 0 expressions.names.unaryRight [.leaf leaf] tree
  simp only [List.cons_append, List.nil_append] at walked
  rw [walked, expressions.spinePrecedence?_before declared plain]
  split
  · simp
  · simp [looser, graft]

/-- The run of a prefix operator, a value, an operator that takes an operand before it, and a
second value where that operator is a binary one. -/
def prefixedRun (leaf value taking : Token) (taker : Operator) : List Token :=
  leaf :: value :: taking :: if taker.arity = .binary then [value] else []

/-- The node that the last operator of such a run makes of the operand it takes. -/
def takenBy (names : NodeNames) (value taking : Token) (taker : Operator) (operand : Tree) : Tree :=
  if taker.arity = .binary then .branch names.binary [operand, .leaf taking, .leaf value]
  else .branch names.unaryLeft [operand, .leaf taking]

/-- The last operator of such a run is grafted on the operand before it. There are three kinds of
operators that can take the operand before them, and each is grafted by its precedence. -/
theorem pushAll_taking (expressions : Expressions) (value taking : Token) {taker : Operator}
    (takes : taker.arity ∈ [.binary, .unaryLeft, .unaryBoth]) (tree : Tree) (spine : Nat) :
    ∃ depth,
      (expressions.pushAll [.operand tree spine] (.operator taking taker ::
          if taker.arity = .binary then [.operand (.leaf value)] else [])).value =
        [.operand (expressions.graft taker.precedence
          (takenBy expressions.names value taking taker) spine tree).1 depth] := by
  cases arity : taker.arity with
  | binary =>
    have made : takenBy expressions.names value taking taker = fun operand =>
        .branch expressions.names.binary [operand, .leaf taking, .leaf value] := by
      funext operand
      rw [takenBy, if_pos arity]
    rw [made]
    simp [pushAll, push, pushOperator, pushOperand, arity]
  | unaryRight => simp [arity] at takes
  | unaryLeft =>
    have made : takenBy expressions.names value taking taker = fun operand =>
        .branch expressions.names.unaryLeft [operand, .leaf taking] := by
      funext operand
      simp [takenBy, arity]
    rw [made]
    simp [pushAll, push, pushOperator, arity]
  | unaryBoth =>
    have made : takenBy expressions.names value taking taker = fun operand =>
        .branch expressions.names.unaryLeft [operand, .leaf taking] := by
      funext operand
      simp [takenBy, arity]
    rw [made]
    simp [pushAll, push, pushOperator, arity]

/-- The last operator of such a run, binding tighter, takes the value, unless the node of the
prefix operator has the name of binary nodes; then it takes that node. -/
theorem resolve_prefixedRun (expressions : Expressions) (leaf value taking : Token)
    {operator taker : Operator}
    (declared : expressions.operator? leaf.value = some operator)
    (isPrefix : operator.arity ∈ [.unaryRight, .unaryBoth])
    (undeclared : expressions.operator? value.value = none) (number : value.tag = .integerLiteral)
    (takerDeclared : expressions.operator? taking.value = some taker)
    (takes : taker.arity ∈ [.binary, .unaryLeft, .unaryBoth])
    (looser : operator.precedence < taker.precedence) (root : String) :
    (expressions.resolve (.branch root ((prefixedRun leaf value taking taker).map .leaf))).value =
      if expressions.names.binary = expressions.names.unaryRight then
        takenBy expressions.names value taking taker
          (.branch expressions.names.unaryRight [.leaf leaf, .leaf value])
      else .branch expressions.names.unaryRight
        [.leaf leaf, takenBy expressions.names value taking taker (.leaf value)] := by
  have leafPartOf : expressions.leafPart leaf = .operator leaf operator := by
    rw [leafPart, classify_eq_operator_iff.mpr declared]
  have takingPart : expressions.leafPart taking = .operator taking taker := by
    rw [leafPart, classify_eq_operator_iff.mpr takerDeclared]
  have valuePart : expressions.leafPart value = .operand (.leaf value) := by
    rw [operator?] at undeclared
    simp [leafPart, classify, undeclared, number, Tag.isLiteral]
  have begun : (expressions.pushAll [] [.operator leaf operator, .operand (.leaf value)]).value =
      [.operand (.branch expressions.names.unaryRight [.leaf leaf, .leaf value]) 1] := by
    cases arity : operator.arity <;>
      simp_all [pushAll, push, pushOperator, pushOperand]
  obtain ⟨depth, ended⟩ := expressions.pushAll_taking value taking takes
    (.branch expressions.names.unaryRight [.leaf leaf, .leaf value]) 1
  have parts : ((prefixedRun leaf value taking taker).map expressions.leafStep).map (·.part) =
      [.operator leaf operator, .operand (.leaf value)] ++ .operator taking taker ::
        if taker.arity = .binary then [.operand (.leaf value)] else [] := by
    simp [prefixedRun, leafStep, leafPartOf, valuePart, takingPart, apply_ite (List.map _)]
  rw [resolve_eq, runOf, steps_leaves, expressions.assemble_value none _ _ depth
    (by rw [parts, pushAll_append, begun]; exact ended),
    expressions.graft_beforeOperand declared looser _ (plain_leaf undeclared)]
  split <;> rfl

/-- What the last operator of such a run makes is a branch, whose first child is the operand. -/
theorem takenBy_unnamed_ne (names otherNames : NodeNames) (name otherName : String)
    (leaf value taking : Token) (taker : Operator) :
    (takenBy names value taking taker (.branch name [.leaf leaf, .leaf value])).unnamed ≠
      (Tree.branch otherName
        [.leaf leaf, takenBy otherNames value taking taker (.leaf value)]).unnamed := by
  unfold takenBy
  split <;> simp

/-- Such a run is grouped alike only under names that both tell binary nodes from prefix nodes, or
both do not. -/
theorem coincide_iff_of_grouped (leaf value taking : Token) {operator taker : Operator}
    (declared : expressions.operator? leaf.value = some operator)
    (isPrefix : operator.arity ∈ [.unaryRight, .unaryBoth])
    (undeclared : expressions.operator? value.value = none) (number : value.tag = .integerLiteral)
    (takerDeclared : expressions.operator? taking.value = some taker)
    (takes : taker.arity ∈ [.binary, .unaryLeft, .unaryBoth])
    (looser : operator.precedence < taker.precedence)
    (grouped : ∀ tree, ((expressions.renamed names).resolve tree).value.unnamed =
      (expressions.resolve tree).value.unnamed) :
    names.binary = names.unaryRight ↔
      expressions.names.binary = expressions.names.unaryRight := by
  have here := expressions.resolve_prefixedRun leaf value taking declared isPrefix undeclared
    number takerDeclared takes looser ""
  have there := (expressions.renamed names).resolve_prefixedRun leaf value taking declared isPrefix
    undeclared number takerDeclared takes looser ""
  have same := grouped (.branch "" ((prefixedRun leaf value taking taker).map .leaf))
  rw [here, there] at same
  by_cases coincide : expressions.names.binary = expressions.names.unaryRight
  · rw [if_pos coincide] at same
    by_cases coincideThere : names.binary = names.unaryRight
    · exact iff_of_true coincideThere coincide
    · rw [if_neg coincideThere] at same
      exact absurd same.symm (takenBy_unnamed_ne _ _ _ _ leaf value taking taker)
  · rw [if_neg coincide] at same
    by_cases coincideThere : names.binary = names.unaryRight
    · rw [if_pos coincideThere] at same
      exact absurd same (takenBy_unnamed_ne _ _ _ _ leaf value taking taker)
    · exact iff_of_false coincideThere coincide

/-- Names for the nodes that are made do not change what is reported. They do not change the
grouping either, exactly when both choices of names tell binary nodes from prefix nodes, or
neither does, or no operator is to go into the node of a prefix operator anyway. -/
theorem renamed_grouping_iff (expressions : Expressions) (names : NodeNames) :
    (∀ tree, ((expressions.renamed names).resolve tree).diagnostics =
      (expressions.resolve tree).diagnostics) ∧
    ((∀ tree, ((expressions.renamed names).resolve tree).value.unnamed =
        (expressions.resolve tree).value.unnamed) ↔
      (expressions.EntersPrefix →
        (names.binary = names.unaryRight ↔
          expressions.names.binary = expressions.names.unaryRight))) := by
  refine ⟨fun tree => ((sameTokens_congruence expressions names).resolve tree).diagnostics, ?_⟩
  constructor
  · intro grouped enters
    obtain ⟨first, operator, second, taker, declared, isPrefix, takerDeclared, takes, looser⟩ :=
      enters
    obtain ⟨text, undeclared⟩ := expressions.exists_undeclared
    exact coincide_iff_of_grouped (.bare first .deliminator) (.bare text .integerLiteral)
      (.bare second .deliminator) declared isPrefix undeclared rfl takerDeclared takes looser
      grouped
  · intro alike tree
    obtain ⟨_, _, twin⟩ := ((twin_congruence alike).resolve tree).value
    exact twin.unnamed_eq.symm

/-- A negation that binds more loosely than the product. -/
def looseNegation : Expressions where
  operators := .ofList [("-", ⟨.unaryRight, 1⟩), ("*", ⟨.binary, 2⟩)]

/-- The run `- a * b`. -/
def negatedProduct : Tree :=
  .branch "line" [.leaf (.bare "-" .deliminator), .leaf (.bare "a" .symbol),
    .leaf (.bare "*" .deliminator), .leaf (.bare "b" .symbol)]

/-- The negation covers the product, but where its nodes have the name of binary nodes the
product is taken of the negated value. Nothing is reported either way. -/
theorem negatedProduct_regrouped :
    let coinciding : NodeNames := { binary := "op", unaryRight := "op" }
    (looseNegation.resolve negatedProduct).value.sketch =
        "(unary_right: '-' (binary: 'a' '*' 'b'))" ∧
      ((looseNegation.renamed coinciding).resolve negatedProduct).value.sketch =
        "(op: (op: '-' 'a') '*' 'b')" ∧
      ((looseNegation.renamed coinciding).resolve negatedProduct).diagnostics =
        (looseNegation.resolve negatedProduct).diagnostics ∧
      ¬ ∀ tree, ((looseNegation.renamed coinciding).resolve tree).value.unnamed =
        (looseNegation.resolve tree).value.unnamed := by
  intro coinciding
  obtain ⟨reported, grouped⟩ := looseNegation.renamed_grouping_iff coinciding
  have enters : looseNegation.EntersPrefix :=
    ⟨"-", ⟨.unaryRight, 1⟩, "*", ⟨.binary, 2⟩, by decide +kernel⟩
  refine ⟨by decide +kernel, by decide +kernel, reported negatedProduct, ?_⟩
  intro alike
  exact absurd ((grouped.mp alike enters).mp rfl) (by decide)

end Expressions

end Parlance
