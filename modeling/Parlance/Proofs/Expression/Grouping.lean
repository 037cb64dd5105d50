import Parlance.Proofs.Expression.OperatorTree

/-!
# Precedence grouping

The operands on the stack of a run are at all times trees of grouped operator trees,
and the number kept with an operand is the length of the right spine of its operator
tree. So the result of a run is grouped. Conversely, working off the operands and
operators of any grouped operator tree leaves exactly its tree on the stack, so no
other grouped tree has the same operands and operators. A run of leaves that is
accepted is therefore grouped in the one way that the precedences allow.

The statement about leaves leaves it open whether a leaf inside a tree is an operand
or an operator. A count settles this: every binary operator joins two operands into
one, so no operator of an accepted run can stand as an operand.
-/

namespace Parlance.Expressions

variable {expressions : Expressions} {complete : Tree → Prop}

/-! ## The stack holds grouped trees -/

/-- What an entry of the stack stands for. An operand is the tree of a grouped operator
tree, with the length of its right spine; a waiting operator is a declared one that
takes an operand on its right. -/
def Item.Arranged (expressions : Expressions) (complete : Tree → Prop) : Item → Prop
  | .operand tree spine =>
    ∃ meaning : OperatorTree, meaning.Placed expressions complete ∧
      meaning.Grouped expressions ∧ meaning.toTree expressions.names = tree ∧
      meaning.spine = spine
  | .pending leaf operator =>
    expressions.operator? leaf.value = some operator ∧ operator.arity ≠ .unaryLeft

/-- The operators of a run are the declared ones and its operands are complete. -/
def Part.Fits (expressions : Expressions) (complete : Tree → Prop) : Part → Prop
  | .operator leaf declaration => expressions.operator? leaf.value = some declaration
  | .operand tree => complete tree
  | .nothing => True

/-- Grafting a suffix on an operand of the stack gives an operand of the stack. Grafting on the tree
is grafting on the operator tree that it draws, which keeps places and grouping. -/
theorem arranged_graft
    (distinct : expressions.names.binary ≠ expressions.names.unaryRight) (suffix : Suffix)
    (suffixPlaced : suffix.Placed expressions complete) {tree : Tree} {spine : Nat}
    (arranged : Item.Arranged expressions complete (.operand tree spine)) :
    Item.Arranged expressions complete (.operand
      (expressions.graft (expressions.precedence suffix.operator)
        (fun taken => suffix.ontoTree expressions.names taken) spine tree).1
      ((expressions.graft (expressions.precedence suffix.operator)
        (fun taken => suffix.ontoTree expressions.names taken) spine tree).2 + suffix.spine)) := by
  obtain ⟨meaning, placed, grouped, rfl, rfl⟩ := arranged
  rw [graft_toTree distinct suffix meaning placed]
  exact ⟨meaning.graft expressions suffix, meaning.placed_graft suffixPlaced placed,
    meaning.grouped_graft suffixPlaced grouped, rfl, meaning.spine_graft⟩

/-- A token that names an operator declares it. -/
theorem declared_eq {leaf : Token} {operator : Operator}
    (found : expressions.operator? leaf.value = some operator) :
    expressions.declared leaf = operator := by
  simp [declared, found]

/-- Putting an operator on the stack keeps the entries arranged. An operator that waits is an entry
of its own. A suffix operator is grafted on the operand below it, at the place that its precedence
gives it. -/
theorem pushOperator_arranged
    (distinct : expressions.names.binary ≠ expressions.names.unaryRight) (stack : List Item)
    (arranged : ∀ item ∈ stack, item.Arranged expressions complete) (leaf : Token)
    (operator : Operator) (found : expressions.operator? leaf.value = some operator) :
    ∀ item ∈ (expressions.pushOperator stack leaf operator).value,
      item.Arranged expressions complete := by
  have pending (waits : operator.arity ≠ .unaryLeft) :
      ∀ item ∈ Item.pending leaf operator :: stack, item.Arranged expressions complete :=
    List.forall_mem_cons.mpr ⟨⟨found, waits⟩, arranged⟩
  unfold pushOperator
  split
  · rename_i arity
    exact pending (by simp [arity])
  · rename_i arity
    exact pending (by simp [arity])
  · rename_i tree spine below notBinary notRight
    obtain ⟨top, others⟩ := List.forall_mem_cons.mp arranged
    have named : expressions.Names [.unaryLeft, .unaryBoth] leaf := by
      refine ⟨operator, found, ?_⟩
      cases arity : operator.arity <;> simp_all
    have grafted := arranged_graft distinct (.behind leaf) named top
    simp only [Suffix.operator, precedence, declared_eq found] at grafted
    exact List.forall_mem_cons.mpr ⟨grafted, others⟩
  · rename_i arity _
    exact pending (by simp [arity])
  · exact arranged

/-- Giving an operand to the operators that wait for it keeps the entries arranged.
The operand itself holds no operator that takes an operand on its left, so prefix
operators and the right side of a binary operator may take it whole. -/
theorem pushOperand_arranged
    (distinct : expressions.names.binary ≠ expressions.names.unaryRight) (stack : List Item)
    (arranged : ∀ item ∈ stack, item.Arranged expressions complete) (tree : Tree) (spine : Nat)
    (meaning : OperatorTree) (placed : meaning.Placed expressions complete)
    (noTakers : meaning.takers expressions = [])
    (written : meaning.toTree expressions.names = tree) (counted : meaning.spine = spine) :
    ∀ item ∈ (expressions.pushOperand stack tree spine).value,
      item.Arranged expressions complete := by
  fun_induction pushOperand expressions stack tree spine generalizing meaning with
  | case1 leaf operator tree spine isBinary left leftSpine below grafted depth equal =>
    obtain ⟨waiting, taken, others⟩ := by simpa only [List.forall_mem_cons] using arranged
    have suffixPlaced : (Suffix.binary leaf meaning).Placed expressions complete :=
      ⟨⟨operator, waiting.1, by simp [isBinary]⟩, placed, noTakers⟩
    have result := arranged_graft distinct (.binary leaf meaning) suffixPlaced taken
    simp only [Suffix.operator, Suffix.ontoTree, Suffix.spine, precedence,
      declared_eq waiting.1, written, counted, equal] at result
    rw [show depth + (spine + 1) = depth + 1 + spine by omega] at result
    exact List.forall_mem_cons.mpr ⟨result, others⟩
  | case2 leaf operator below tree spine isBinary noOperand inductionHypothesis =>
    exact inductionHypothesis (List.forall_mem_cons.mp arranged).2 meaning placed noTakers
      written counted
  | case3 leaf operator below tree spine notBinary inductionHypothesis =>
    obtain ⟨waiting, others⟩ := List.forall_mem_cons.mp arranged
    have named : expressions.Names [.unaryRight, .unaryBoth] leaf := by
      refine ⟨operator, waiting.1, ?_⟩
      have waits := waiting.2
      cases arity : operator.arity <;> simp_all
    exact inductionHypothesis others (.before leaf meaning) ⟨named, placed⟩ noTakers
      (by simp [OperatorTree.toTree, written]) (by simp [OperatorTree.spine, counted])
  | case4 stack tree spine settled =>
    exact List.forall_mem_cons.mpr
      ⟨⟨meaning, placed, meaning.grouped_of_no_takers noTakers, written, counted⟩, arranged⟩

/-- Putting the parts of a run on the stack keeps the entries arranged, whatever is
reported on the way. -/
theorem pushAll_arranged
    (distinct : expressions.names.binary ≠ expressions.names.unaryRight) (parts : List Part)
    (fits : ∀ part ∈ parts, part.Fits expressions complete) (stack : List Item)
    (arranged : ∀ item ∈ stack, item.Arranged expressions complete) :
    ∀ item ∈ (expressions.pushAll stack parts).value, item.Arranged expressions complete := by
  induction parts generalizing stack with
  | nil => exact arranged
  | cons part parts inductionHypothesis =>
    obtain ⟨first, others⟩ := List.forall_mem_cons.mp fits
    refine inductionHypothesis others _ ?_
    cases part with
    | operator leaf operator =>
      exact pushOperator_arranged distinct stack arranged leaf operator first
    | operand tree =>
      exact pushOperand_arranged distinct stack arranged tree 0 (.operand tree) first rfl rfl rfl
    | nothing => exact arranged

/-! ## Grouped trees are read back -/

/-- The stack has no operand on top, so that an operand may follow. -/
def ExpectsOperand (stack : List Item) : Prop :=
  ∀ tree spine below, stack ≠ .operand tree spine :: below

/-- A prefix operator waits for its operand where one is expected. An operator that can stand on
both sides counts as a prefix operator there. -/
theorem pushOperator_before {operator : Token}
    (named : expressions.Names [.unaryRight, .unaryBoth] operator) (stack : List Item)
    (expects : ExpectsOperand stack) :
    expressions.pushOperator stack operator (expressions.declared operator) =
      { value := .pending operator (expressions.declared operator) :: stack } := by
  have arity := (declared_of_names named).2
  unfold pushOperator
  split
  · rfl
  · rfl
  · exact absurd rfl (expects _ _ _)
  · rfl
  · rename_i isLeft _
    simp [isLeft] at arity

/-- Where an operand is expected, the parts of an operator tree that takes nothing on
its left amount to its tree as one operand: its prefix operators wait until the
operand behind them arrives. -/
theorem pushAll_parts_of_no_takers (tree : OperatorTree)
    (placed : tree.Placed expressions complete) (noTakers : tree.takers expressions = [])
    (stack : List Item) (expects : ExpectsOperand stack) :
    expressions.pushAll stack (tree.parts expressions) =
      expressions.pushOperand stack (tree.toTree expressions.names) tree.spine := by
  induction tree generalizing stack with
  | operand tree =>
    simp [OperatorTree.parts, pushAll, push, OperatorTree.toTree, OperatorTree.spine]
  | behind taken operator => simp [OperatorTree.takers] at noTakers
  | binary left operator right => simp [OperatorTree.takers] at noTakers
  | before operator taken inductionHypothesis =>
    have notBinary : (expressions.declared operator).arity ≠ .binary := by
      have arity := (declared_of_names placed.1).2
      intro isBinary
      simp [isBinary] at arity
    have rest := inductionHypothesis placed.2 noTakers
      (.pending operator (expressions.declared operator) :: stack) (fun _ _ _ => by simp)
    simp only [OperatorTree.parts, pushAll, push, pushOperator_before placed.1 stack expects, rest,
      List.nil_append]
    rw [pushOperand.eq_def]
    simp [notBinary, OperatorTree.toTree, OperatorTree.spine]

/-- Behind a single operand, the parts of a suffix amount to grafting it on the
operand. -/
theorem pushAll_suffix
    (distinct : expressions.names.binary ≠ expressions.names.unaryRight) (suffix : Suffix)
    (suffixPlaced : suffix.Placed expressions complete) (tree : OperatorTree)
    (placed : tree.Placed expressions complete) :
    expressions.pushAll [.operand (tree.toTree expressions.names) tree.spine]
        (suffix.parts expressions) =
      { value := [.operand ((tree.graft expressions suffix).toTree expressions.names)
          (tree.graft expressions suffix).spine] } := by
  have grafted := graft_toTree distinct suffix tree placed
  cases suffix with
  | behind operator =>
    obtain ⟨_, arity⟩ := declared_of_names suffixPlaced
    simp only [Suffix.operator, Suffix.ontoTree, precedence] at grafted
    have pushed : expressions.pushOperator [.operand (tree.toTree expressions.names) tree.spine]
        operator (expressions.declared operator) =
          { value := [.operand ((tree.graft expressions (.behind operator)).toTree
              expressions.names) (tree.descent expressions (.behind operator))] } := by
      simp only [List.mem_cons, List.not_mem_nil, or_false] at arity
      rcases arity with isLeft | isBoth
      · simp [pushOperator, isLeft, grafted]
      · simp [pushOperator, isBoth, grafted]
    simp [Suffix.parts, pushAll, push, pushed, OperatorTree.spine_graft, Suffix.spine]
  | binary operator right =>
    obtain ⟨named, rightPlaced, noTakers⟩ := suffixPlaced
    have isBinary := List.mem_singleton.mp (declared_of_names named).2
    simp only [Suffix.operator, Suffix.ontoTree, precedence] at grafted
    have waiting := pushAll_parts_of_no_takers right rightPlaced noTakers
      [.pending operator (expressions.declared operator),
        .operand (tree.toTree expressions.names) tree.spine] (fun _ _ _ => by simp)
    have added : tree.descent expressions (.binary operator right) + 1 + right.spine =
        tree.descent expressions (.binary operator right) + (right.spine + 1) := by omega
    simp [Suffix.parts, pushAll, push, pushOperator, isBinary, waiting, pushOperand, grafted,
      OperatorTree.spine_graft, Suffix.spine, added]

/-- Working off the parts of a grouped operator tree leaves exactly its tree on the
stack, and reports nothing.

Proof: by induction on the number of parts. A tree that takes nothing on its left is
a single operand behind prefix operators. Any other arises from a smaller grouped
tree by grafting a suffix; the smaller tree is on the stack when the parts of the
suffix come, and these graft the suffix on it. -/
theorem pushAll_parts
    (distinct : expressions.names.binary ≠ expressions.names.unaryRight) (tree : OperatorTree)
    (placed : tree.Placed expressions complete) (grouped : tree.Grouped expressions) :
    expressions.pushAll [] (tree.parts expressions) =
      { value := [.operand (tree.toTree expressions.names) tree.spine] } := by
  induction size : (tree.parts expressions).length using Nat.strongRecOn generalizing tree with
  | ind count inductionHypothesis =>
    rcases tree.exists_graft placed grouped with noTakers | found
    · rw [pushAll_parts_of_no_takers tree placed noTakers [] (fun _ _ _ => by simp)]
      rfl
    · obtain ⟨smaller, suffix, suffixPlaced, smallerPlaced, smallerGrouped, rfl⟩ := found
      have shorter : (smaller.parts expressions).length < count := by
        rw [← size, OperatorTree.parts_graft, List.length_append]
        cases suffix <;> simp [Suffix.parts]
      have reached := inductionHypothesis _ shorter smaller smallerPlaced smallerGrouped rfl
      rw [OperatorTree.parts_graft, pushAll_append, reached,
        pushAll_suffix distinct suffix suffixPlaced smaller smallerPlaced]
      rfl

/-! ## Runs of leaves -/

/-- A leaf that is no operator and counts as a value. -/
def IsValue (expressions : Expressions) (tree : Tree) : Prop :=
  ∃ token, tree = .leaf token ∧
    (expressions.classify token = .literal ∨ expressions.classify token = .symbol)

/-- A leaf is an operator exactly when its text is declared as one. Operators are looked up before
tags are looked at, so no other kind can take their place. -/
theorem classify_eq_operator_iff {token : Token} {operator : Operator} :
    expressions.classify token = .operator operator ↔
      expressions.operator? token.value = some operator := by
  have other (tag : Tag) : (if tag = .symbol then Kind.symbol
      else if tag.isLiteral then .literal else .other) ≠ .operator operator := by
    split
    · simp
    · split <;> simp
  unfold classify operator?
  split
  · rename_i found
    simp [found]
  · rename_i missing
    simp only [missing, reduceCtorEq, iff_false]
    exact other _

/-- The part of a leaf that is an operator. -/
theorem leafPart_of_names {arities : List Arity} {token : Token}
    (named : expressions.Names arities token) :
    expressions.leafPart token = .operator token (expressions.declared token) := by
  have kind := classify_eq_operator_iff.mpr (declared_of_names named).1
  simp [leafPart, kind]

/-- The part of a leaf that is an operator or a value fits into a run and has the leaf
as its only token. -/
theorem leafPart_fits {token : Token} (known : expressions.classify token ≠ .other) :
    (expressions.leafPart token).Fits expressions expressions.IsValue ∧
      (expressions.leafPart token).leaves = [token] := by
  unfold leafPart
  split
  · rename_i operator kind
    exact ⟨classify_eq_operator_iff.mp kind, rfl⟩
  · rename_i kind
    exact ⟨⟨token, rfl, Or.inl kind⟩, rfl⟩
  · rename_i kind
    exact ⟨⟨token, rfl, Or.inr kind⟩, rfl⟩
  · rename_i kind
    exact absurd kind known

/-- The tokens of a run whose leaves all have a place in it are the run. -/
theorem flatMap_leaves_leafPart {run : List Token}
    (known : ∀ token ∈ run, expressions.classify token ≠ .other) :
    run.flatMap (fun token => (expressions.leafPart token).leaves) = run := by
  induction run with
  | nil => rfl
  | cons token rest inductionHypothesis =>
    obtain ⟨first, others⟩ := List.forall_mem_cons.mp known
    simp [(leafPart_fits first).2, inductionHypothesis others]

/-- What a leaf adds to the count of operands: a binary operator makes one of two, a
unary operator changes nothing, and anything else is one. -/
def weight (expressions : Expressions) (token : Token) : Int :=
  match expressions.operator? token.value with
  | none => 1
  | some operator => if operator.arity = .binary then -1 else 0

/-- A binary operator takes one operand away. -/
theorem weight_binary {token : Token} (named : expressions.Names [.binary] token) :
    expressions.weight token = -1 := by
  obtain ⟨operator, found, arity⟩ := named
  simp only [List.mem_singleton] at arity
  simp [weight, found, arity]

/-- A unary operator changes nothing. -/
theorem weight_unary {arities : List Arity} {token : Token}
    (named : expressions.Names arities token) (unary : .binary ∉ arities) :
    expressions.weight token = 0 := by
  obtain ⟨operator, found, arity⟩ := named
  have notBinary : operator.arity ≠ .binary := fun isBinary => unary (isBinary ▸ arity)
  simp [weight, found, notBinary]

/-- A leaf weighs one operand at most, and exactly one if it is no operator. -/
theorem weight_le (token : Token) :
    expressions.weight token ≤ 1 ∧
      (expressions.weight token = 1 ↔ expressions.operator? token.value = none) := by
  unfold weight
  split
  · rename_i missing
    simp [missing]
  · rename_i found
    split <;> simp [found]

/-- The values are the leaves that are no operators and have a place in a run. There are just four
kinds of leaves, and the values are those of two of them. -/
theorem isValue_leaf_iff {token : Token} :
    expressions.IsValue (.leaf token) ↔
      expressions.operator? token.value = none ∧ expressions.classify token ≠ .other := by
  constructor
  · rintro ⟨_, same, kind⟩
    cases same
    refine ⟨Option.eq_none_iff_forall_not_mem.mpr fun operator found => ?_, ?_⟩
    · rw [classify_eq_operator_iff.mpr found] at kind
      simp at kind
    · rcases kind with kind | kind <;> simp [kind]
  · rintro ⟨undeclared, known⟩
    refine ⟨token, rfl, ?_⟩
    cases kind : expressions.classify token with
    | operator operator => simp [classify_eq_operator_iff.mp kind] at undeclared
    | literal => exact Or.inl rfl
    | symbol => exact Or.inr rfl
    | other => exact absurd kind known

/-- The count of operands left of a run. -/
def balance (expressions : Expressions) : List Token → Int
  | [] => 0
  | token :: rest => expressions.weight token + expressions.balance rest

/-- Counts add up over concatenation. -/
theorem balance_append (left right : List Token) :
    expressions.balance (left ++ right) = expressions.balance left + expressions.balance right := by
  induction left with
  | nil => simp [balance]
  | cons token rest inductionHypothesis =>
    simp only [List.cons_append, balance, inductionHypothesis]
    omega

/-- An operator tree whose operands are leaves has a count of one operand at most, and
exactly one if no operator stands as an operand. -/
theorem balance_leaves_le (tree : OperatorTree)
    (placed : tree.Placed expressions (fun operand => operand.isLeaf))
    (known : ∀ token ∈ (tree.toTree expressions.names).leaves,
      expressions.classify token ≠ .other) :
    expressions.balance (tree.toTree expressions.names).leaves ≤ 1 ∧
      (expressions.balance (tree.toTree expressions.names).leaves = 1 ↔
        tree.Placed expressions expressions.IsValue) := by
  induction tree with
  | operand tree =>
    cases tree with
    | branch name children => simp [OperatorTree.Placed, Tree.isLeaf] at placed
    | leaf token =>
      have hasPlace := known token (by simp [OperatorTree.toTree, Tree.leaves])
      simpa [OperatorTree.toTree, Tree.leaves, balance, OperatorTree.Placed, isValue_leaf_iff,
        hasPlace] using expressions.weight_le token
  | binary left operator right leftHypothesis rightHypothesis =>
    obtain ⟨named, leftPlaced, rightPlaced⟩ := placed
    simp only [OperatorTree.leaves_toTree_binary, List.forall_mem_append,
      List.forall_mem_cons] at known
    obtain ⟨leftMost, leftValues⟩ := leftHypothesis leftPlaced known.1
    obtain ⟨rightMost, rightValues⟩ := rightHypothesis rightPlaced known.2.2
    simp only [OperatorTree.leaves_toTree_binary, balance_append, balance, weight_binary named,
      OperatorTree.Placed, named, true_and, ← leftValues, ← rightValues]
    omega
  | before operator taken inductionHypothesis =>
    obtain ⟨named, takenPlaced⟩ := placed
    simp only [OperatorTree.leaves_toTree_before, List.forall_mem_cons] at known
    simpa [balance, weight_unary named, OperatorTree.Placed, named] using
      inductionHypothesis takenPlaced known.2
  | behind taken operator inductionHypothesis =>
    obtain ⟨named, takenPlaced⟩ := placed
    simp only [OperatorTree.leaves_toTree_behind, List.forall_mem_append] at known
    simpa [balance, balance_append, weight_unary named, OperatorTree.Placed, named] using
      inductionHypothesis takenPlaced known.1

/-- The parts of an operator tree of values are those of its leaves. By induction over the operator
tree, as every operator in it stands at a place for which it is declared. -/
theorem parts_eq_leaves (tree : OperatorTree)
    (placed : tree.Placed expressions expressions.IsValue) :
    tree.parts expressions =
      (tree.toTree expressions.names).leaves.map expressions.leafPart := by
  induction tree with
  | operand tree =>
    obtain ⟨token, rfl, kind | kind⟩ := placed <;>
      simp [OperatorTree.parts, OperatorTree.toTree, Tree.leaves, leafPart, kind]
  | binary left operator right leftHypothesis rightHypothesis =>
    simp [OperatorTree.parts, leftHypothesis placed.2.1, rightHypothesis placed.2.2,
      leafPart_of_names placed.1]
  | before operator taken inductionHypothesis =>
    simp [OperatorTree.parts, inductionHypothesis placed.2, leafPart_of_names placed.1]
  | behind taken operator inductionHypothesis =>
    simp [OperatorTree.parts, inductionHypothesis placed.2, leafPart_of_names placed.1]

/-! ## The one grouping of a run -/

/-- The tree groups a run of leaves. Its leaves from left to right are the run, every
node is that of an operator declared for its place, and the nodes are grouped by
their precedences. -/
def Groups (expressions : Expressions) (run : List Token) (tree : Tree) : Prop :=
  tree.leaves = run ∧
    ∃ meaning : OperatorTree, meaning.toTree expressions.names = tree ∧
      meaning.Placed expressions (fun operand => operand.isLeaf) ∧ meaning.Grouped expressions

/-- Values are leaves. -/
theorem IsValue.isLeaf (tree : Tree) (value : expressions.IsValue tree) : tree.isLeaf = true := by
  obtain ⟨token, rfl, _⟩ := value
  rfl

/-- What is known of a run of leaves that is accepted: every leaf has a place in it,
and a single operand is left on the stack, the tree of a grouped operator tree over
the run. -/
theorem accepted_run (distinct : expressions.names.binary ≠ expressions.names.unaryRight)
    {run : List Token} (nonempty : run ≠ [])
    (accepted : (expressions.assemble none (run.map expressions.leafStep)).diagnostics = []) :
    (∀ token ∈ run, expressions.classify token ≠ .other) ∧
      ∃ meaning : OperatorTree, meaning.Placed expressions expressions.IsValue ∧
        meaning.Grouped expressions ∧
        (meaning.toTree expressions.names).leaves = run ∧
        (expressions.assemble none (run.map expressions.leafStep)).value =
          meaning.toTree expressions.names := by
  obtain ⟨silent, pushed, left⟩ := (expressions.assemble_silent_iff none _).mp accepted
  simp only [List.map_map, Function.comp_def, leafStep] at silent pushed left
  have known : ∀ token ∈ run, expressions.classify token ≠ .other := by
    intro token member isOther
    have reported := silent _ (List.mem_map.mpr ⟨token, member, rfl⟩)
    simp [leafStep, isOther] at reported
  have fits : ∀ part ∈ run.map expressions.leafPart, part.Fits expressions expressions.IsValue := by
    intro part member
    obtain ⟨token, inRun, rfl⟩ := List.mem_map.mp member
    exact (leafPart_fits (known token inRun)).1
  have leaves : (run.map expressions.leafPart).flatMap Part.leaves = run := by
    rw [List.flatMap_map]
    exact flatMap_leaves_leafPart known
  have onStack := expressions.pushAll_leaves [] _ pushed
  have arranged := pushAll_arranged distinct _ fits [] (by simp)
  rw [leaves] at onStack
  rcases left with empty | ⟨tree, spine, alone⟩
  · rw [empty] at onStack
    exact absurd onStack.symm nonempty
  · rw [alone] at onStack arranged
    obtain ⟨meaning, placed, grouped, rfl, rfl⟩ := arranged _ List.mem_cons_self
    have parts : (run.map expressions.leafStep).map (·.part) = run.map expressions.leafPart := by
      simp [leafStep]
    refine ⟨known, meaning, placed, grouped, onStack, ?_⟩
    exact expressions.assemble_value none _ _ _ (by rw [parts]; exact alone)

/-- A run of leaves that is accepted is grouped in exactly one way, and its result is
that one. A tree that groups the run reads its leaves from left to right as the run;
its nodes are binary, prefix and postfix nodes of operators declared for these
places; whatever takes an operand on its left inside the right operand of a node
binds tighter than the node; and a left operand that takes an operand on its right
binds at least as tightly as the node that takes it.

Proof: the result groups the run because the stack only ever holds grouped trees. If
another tree groups the run, its count of operands is that of the result, so no
operator stands as an operand in it, and its parts are the parts of the run. Working
these off gives the other tree. -/
theorem resolve_groups_uniquely (expressions : Expressions)
    (distinct : expressions.names.binary ≠ expressions.names.unaryRight) (tree : Tree)
    (run : List Token) (nonempty : run ≠ []) (flat : runOf tree = run.map .leaf)
    (accepted : (expressions.resolve tree).diagnostics = []) :
    expressions.Groups run (expressions.resolve tree).value ∧
      ∀ other, expressions.Groups run other → other = (expressions.resolve tree).value := by
  rw [resolve_eq, flat, steps_leaves] at accepted ⊢
  obtain ⟨known, meaning, placed, grouped, leaves, result⟩ :=
    accepted_run distinct nonempty accepted
  have leafOperands := placed.mono IsValue.isLeaf
  refine ⟨⟨by rw [result, leaves], meaning, result.symm, leafOperands, grouped⟩, ?_⟩
  rintro _ ⟨otherLeaves, other, rfl, otherPlaced, otherGrouped⟩
  have count := (balance_leaves_le meaning leafOperands (by rwa [leaves])).2.mpr placed
  rw [leaves, ← otherLeaves] at count
  have otherValues := (balance_leaves_le other otherPlaced (by rwa [otherLeaves])).2.mp count
  have worked := pushAll_parts distinct other otherValues otherGrouped
  rw [parts_eq_leaves other otherValues, otherLeaves] at worked
  refine (expressions.assemble_value none _ _ other.spine ?_).symm
  simp [leafStep, Function.comp_def, worked]

/-- Sums, products, a loose negation before an operand, and a mark that may stand
before or behind one. -/
def arithmetic : Expressions where
  operators := .ofList [("+", ⟨.binary, 1⟩), ("*", ⟨.binary, 2⟩), ("-", ⟨.unaryRight, 0⟩),
    ("!", ⟨.unaryBoth, 2⟩)]

/-- The run `- 1 + 2 * ! 3 !`. -/
def negatedSum : List Token :=
  [.bare "-" .deliminator, .bare "1" .integerLiteral, .bare "+" .deliminator,
    .bare "2" .integerLiteral, .bare "*" .deliminator, .bare "!" .deliminator,
    .bare "3" .integerLiteral, .bare "!" .deliminator]

/-- The negation covers the whole sum, and the mark behind the run covers the product,
which binds as tightly as the mark does. -/
theorem negatedSum_groups_uniquely :
    (arithmetic.resolve (.branch "line" (negatedSum.map .leaf))).diagnostics = [] ∧
      arithmetic.Groups negatedSum
        (arithmetic.resolve (.branch "line" (negatedSum.map .leaf))).value ∧
      ∀ other, arithmetic.Groups negatedSum other →
        other = (arithmetic.resolve (.branch "line" (negatedSum.map .leaf))).value :=
  have accepted :
      (arithmetic.resolve (.branch "line" (negatedSum.map .leaf))).diagnostics = [] := by
    decide +kernel
  ⟨accepted, arithmetic.resolve_groups_uniquely (by decide) _ negatedSum (by decide) rfl accepted⟩

end Parlance.Expressions
