import Parlance.Proofs.Expression.Exchange
import Parlance.Proofs.Tree.Walks

/-!
# Two runs side by side

Other names may be chosen for the nodes that a run makes. This file works off one run twice,
under two choices of names, and compares what is on the two stacks. What a step puts on the
stack, and what it reports, depends on the kinds of the entries only and not on their trees. So
any relation between operands holds between the two results as long as it is respected by what
is done to operands: prefix operators take them, operators behind them take them or what is on
their right spine, and calls are made of them.

The reports of the two runs are the same ones. Only one of them looks at a tree that was made,
and it points at the last token of that tree; so related trees must have the same tokens.
-/

namespace Parlance

namespace Expressions

/-- The expressions with other names for the nodes that are made. The names of what is read,
wrappers and their elements, stay as they are. -/
abbrev renamed (expressions : Expressions) (names : NodeNames) : Expressions :=
  { expressions with
    names := { names with
      expression := expressions.names.expression, element := expressions.names.element } }

/-- The relation between operands, each with the number of its open nodes, is respected by all
that runs under two choices of names do to them. Complete operands have no open nodes. -/
structure Congruence (expressions : Expressions) (names : NodeNames)
    (alike : Tree → Nat → Tree → Nat → Prop) : Prop where
  complete : ∀ {tree other : Tree} {spine otherSpine : Nat},
    alike tree spine other otherSpine → alike tree 0 other 0
  leaves : ∀ {tree other : Tree} {spine otherSpine : Nat},
    alike tree spine other otherSpine → tree.leaves = other.leaves
  isEmpty : ∀ {tree other : Tree} {spine otherSpine : Nat},
    alike tree spine other otherSpine → tree.isEmpty = other.isEmpty
  empty : alike .empty 0 .empty 0
  value : ∀ {token : Token}, expressions.operator? token.value = none →
    alike (.leaf token) 0 (.leaf token) 0
  call : ∀ {callee : Token} {given others : List Tree},
    List.Forall₂ (fun tree other => alike tree 0 other 0) given others →
      alike (.branch expressions.names.call (.leaf callee :: given)) 0
        (.branch names.call (.leaf callee :: others)) 0
  before : ∀ {leaf : Token} {operator : Operator},
    expressions.operator? leaf.value = some operator →
    operator.arity ∈ [.unaryRight, .unaryBoth] →
    ∀ {tree other : Tree} {spine otherSpine : Nat}, alike tree spine other otherSpine →
      alike (.branch expressions.names.unaryRight [.leaf leaf, tree]) (spine + 1)
        (.branch names.unaryRight [.leaf leaf, other]) (otherSpine + 1)
  behind : ∀ {leaf : Token} {operator : Operator},
    expressions.operator? leaf.value = some operator →
    operator.arity ∈ [.unaryLeft, .unaryBoth] →
    ∀ {tree other : Tree} {spine otherSpine : Nat}, alike tree spine other otherSpine →
      let made := expressions.graft operator.precedence
        (fun operand => .branch expressions.names.unaryLeft [operand, .leaf leaf]) spine tree
      let otherMade := (expressions.renamed names).graft operator.precedence
        (fun operand => .branch names.unaryLeft [operand, .leaf leaf]) otherSpine other
      alike made.1 made.2 otherMade.1 otherMade.2
  binary : ∀ {leaf : Token} {operator : Operator},
    expressions.operator? leaf.value = some operator → operator.arity = .binary →
    ∀ {tree other right otherRight : Tree} {spine otherSpine rightSpine otherRightSpine : Nat},
    alike tree spine other otherSpine → alike right rightSpine otherRight otherRightSpine →
      let made := expressions.graft operator.precedence
        (fun operand => .branch expressions.names.binary [operand, .leaf leaf, right]) spine tree
      let otherMade := (expressions.renamed names).graft operator.precedence
        (fun operand => .branch names.binary [operand, .leaf leaf, otherRight]) otherSpine other
      alike made.1 (made.2 + 1 + rightSpine) otherMade.1 (otherMade.2 + 1 + otherRightSpine)

variable {expressions : Expressions} {names : NodeNames}
  {alike : Tree → Nat → Tree → Nat → Prop}

/-! ## The stack -/

/-- Entries of the two stacks at the same height: related operands, or the same operator, which
is declared and waits for an operand. -/
inductive Item.Alike (expressions : Expressions) (alike : Tree → Nat → Tree → Nat → Prop) :
    Item → Item → Prop where
  | operand {tree other : Tree} {spine otherSpine : Nat}
    (related : alike tree spine other otherSpine) :
    Alike expressions alike (.operand tree spine) (.operand other otherSpine)
  | pending {leaf : Token} {operator : Operator}
    (declared : expressions.operator? leaf.value = some operator)
    (waits : operator.arity ≠ .unaryLeft) :
    Alike expressions alike (.pending leaf operator) (.pending leaf operator)

/-- The two results have related values, and the same is reported about them. -/
structure SameReports {α : Type} (related : α → α → Prop) (first second : Reported α) : Prop where
  value : related first.value second.value
  diagnostics : second.diagnostics = first.diagnostics

/-- An operator does the same to both stacks: it waits, or takes the operand before it, or is
reported. -/
theorem Congruence.pushOperator (congruence : Congruence expressions names alike)
    {stack others : List Item} (paired : List.Forall₂ (Item.Alike expressions alike) stack others)
    {leaf : Token} {operator : Operator}
    (declared : expressions.operator? leaf.value = some operator) :
    SameReports (List.Forall₂ (Item.Alike expressions alike))
      (expressions.pushOperator stack leaf operator)
      ((expressions.renamed names).pushOperator others leaf operator) := by
  have pending (waits : operator.arity ≠ .unaryLeft) :
      List.Forall₂ (Item.Alike expressions alike) (.pending leaf operator :: stack)
        (.pending leaf operator :: others) :=
    .cons (.pending declared waits) paired
  unfold Expressions.pushOperator
  cases arity : operator.arity with
  | binary => exact ⟨pending (by simp [arity]), rfl⟩
  | unaryRight => exact ⟨pending (by simp [arity]), rfl⟩
  | unaryLeft =>
    cases paired with
    | nil => exact ⟨.nil, rfl⟩
    | cons top below =>
      cases top with
      | operand related =>
        have grafted := congruence.behind declared (by simp [arity]) related
        exact ⟨.cons (.operand grafted) below, rfl⟩
      | pending waiting waits => exact ⟨.cons (.pending waiting waits) below, rfl⟩
  | unaryBoth =>
    cases paired with
    | nil => exact ⟨pending (by simp [arity]), rfl⟩
    | cons top below =>
      cases top with
      | operand related =>
        have grafted := congruence.behind declared (by simp [arity]) related
        exact ⟨.cons (.operand grafted) below, rfl⟩
      | pending waiting waits => exact ⟨pending (by simp [arity]), rfl⟩

/-- Related operands are taken by the same operators.

Proof: the induction follows the waiting operators of one stack; on the other stack the same
operators wait. -/
theorem Congruence.pushOperand (congruence : Congruence expressions names alike)
    {stack others : List Item} (paired : List.Forall₂ (Item.Alike expressions alike) stack others)
    {tree other : Tree} {spine otherSpine : Nat} (related : alike tree spine other otherSpine) :
    SameReports (List.Forall₂ (Item.Alike expressions alike))
      (expressions.pushOperand stack tree spine)
      ((expressions.renamed names).pushOperand others other otherSpine) := by
  fun_induction Expressions.pushOperand expressions stack tree spine
    generalizing others other otherSpine with
  | case1 leaf operator tree spine isBinary left leftSpine below grafted depth equal =>
    rcases paired with _ | ⟨waiting, paired⟩
    rcases paired with _ | ⟨operand, below⟩
    cases waiting with
    | pending declared waits =>
      cases operand with
      | operand leftRelated =>
        have result := congruence.binary declared isBinary leftRelated related
        rw [equal] at result
        rw [Expressions.pushOperand.eq_def (expressions.renamed names)]
        simp only [isBinary, if_true]
        exact ⟨.cons (.operand result) below, rfl⟩
  | case2 leaf operator below tree spine isBinary noOperand inductionHypothesis =>
    rcases paired with _ | ⟨waiting, paired⟩
    cases waiting with
    | pending declared waits =>
      have settled := inductionHypothesis paired related
      rw [Expressions.pushOperand.eq_def (expressions.renamed names)]
      simp only [isBinary, if_true]
      cases paired with
      | nil => exact ⟨settled.value, by rw [settled.diagnostics]⟩
      | cons top below =>
        cases top with
        | operand leftRelated => exact absurd rfl (noOperand _ _ _)
        | pending waiting waits => exact ⟨settled.value, by rw [settled.diagnostics]⟩
  | case3 leaf operator below tree spine notBinary inductionHypothesis =>
    rcases paired with _ | ⟨waiting, paired⟩
    cases waiting with
    | pending declared waits =>
      have isPrefix : operator.arity ∈ [Arity.unaryRight, .unaryBoth] := by
        cases arity : operator.arity <;> simp_all
      have settled := inductionHypothesis paired (congruence.before declared isPrefix related)
      rw [Expressions.pushOperand.eq_def (expressions.renamed names)]
      simp only [notBinary, if_false]
      exact settled
  | case4 stack tree spine settled =>
    have unpending (leaf : Token) (operator : Operator) (below : List Item) :
        others ≠ .pending leaf operator :: below := by
      rintro rfl
      rcases paired with _ | ⟨waiting, paired⟩
      cases waiting with
      | pending declared waits => exact settled _ _ _ rfl
    rw [Expressions.pushOperand]
    · exact ⟨.cons (.operand related) paired, rfl⟩
    · exact unpending

/-! ## Working off a run -/

/-- The parts that a step contributes to the two runs: the same operator, or complete operands
that are related. -/
inductive Part.Alike (expressions : Expressions) (alike : Tree → Nat → Tree → Nat → Prop) :
    Part → Part → Prop where
  | operator {leaf : Token} {operator : Operator}
    (declared : expressions.operator? leaf.value = some operator) :
    Alike expressions alike (.operator leaf operator) (.operator leaf operator)
  | operand {tree other : Tree} (related : alike tree 0 other 0) :
    Alike expressions alike (.operand tree) (.operand other)
  | nothing : Alike expressions alike .nothing .nothing

/-- Steps of the two runs: they contribute the like, have seen the same token last, and have
the same diagnostics. -/
structure Step.Alike (expressions : Expressions) (alike : Tree → Nat → Tree → Nat → Prop)
    (first second : Step) : Prop where
  part : Part.Alike expressions alike first.part second.part
  seen : second.seen = first.seen
  diagnostics : second.diagnostics = first.diagnostics

/-- The two runs after as many steps. -/
structure Working.Alike (expressions : Expressions) (alike : Tree → Nat → Tree → Nat → Prop)
    (first second : Working) : Prop where
  stack : List.Forall₂ (Item.Alike expressions alike) first.stack second.stack
  seen : second.seen = first.seen
  diagnostics : second.diagnostics = first.diagnostics

/-- The like parts do the like to related stacks, with the same reports. -/
theorem Congruence.push (congruence : Congruence expressions names alike)
    {stack others : List Item} (paired : List.Forall₂ (Item.Alike expressions alike) stack others)
    {part other : Part} (parts : Part.Alike expressions alike part other) :
    SameReports (List.Forall₂ (Item.Alike expressions alike))
      (expressions.push stack part) ((expressions.renamed names).push others other) := by
  cases parts with
  | operator declared => exact congruence.pushOperator paired declared
  | operand related => exact congruence.pushOperand paired related
  | nothing => exact ⟨paired, rfl⟩

/-- The like steps keep two runs alike that are alike so far. The part is pushed on stacks that are
alike, and the reports are put behind the same ones. -/
theorem Congruence.work (congruence : Congruence expressions names alike)
    {working other : Working} (worked : Working.Alike expressions alike working other)
    {step otherStep : Step} (steps : Step.Alike expressions alike step otherStep) :
    Working.Alike expressions alike (expressions.work working step)
      ((expressions.renamed names).work other otherStep) := by
  have pushed := congruence.push worked.stack steps.part
  rw [work_eq, work_eq]
  constructor
  · exact pushed.value
  · exact steps.seen
  · simp only [worked.diagnostics, steps.diagnostics, pushed.diagnostics]

/-- Diagnostics about related trees point at the same token. -/
theorem Congruence.site (congruence : Congruence expressions names alike) {tree other : Tree}
    {spine otherSpine : Nat} (related : alike tree spine other otherSpine)
    (seen : Option Token) : site other seen = site tree seen := by
  rw [Expressions.site, Expressions.site, Tree.lastToken?_eq, Tree.lastToken?_eq,
    congruence.leaves related]

/-- The two runs have related results, and what is left over is reported alike. It depends on
nothing but what is on top and whether there is more below. -/
theorem Congruence.finish (congruence : Congruence expressions names alike)
    {stack others : List Item} (paired : List.Forall₂ (Item.Alike expressions alike) stack others)
    (seen : Option Token) :
    SameReports (fun tree other => alike tree 0 other 0) (finish stack seen)
      (finish others seen) := by
  cases paired with
  | nil => exact ⟨congruence.empty, rfl⟩
  | cons top below =>
    cases top with
    | pending declared waits => exact ⟨congruence.empty, rfl⟩
    | operand related =>
      cases below with
      | nil => exact ⟨congruence.complete related, rfl⟩
      | cons next deeper =>
        refine ⟨congruence.empty, ?_⟩
        simp only [Expressions.finish, congruence.site related]

/-- Runs whose steps are alike have related results and the same diagnostics. By induction over the
steps, the stacks stay related; then they are finished alike. -/
theorem Congruence.assemble (congruence : Congruence expressions names alike)
    {steps others : List Step}
    (alikeSteps : List.Forall₂ (Step.Alike expressions alike) steps others)
    (seen : Option Token) :
    SameReports (fun tree other => alike tree 0 other 0) (expressions.assemble seen steps)
      ((expressions.renamed names).assemble seen others) := by
  have worked (first second : Working) (begun : Working.Alike expressions alike first second) :
      Working.Alike expressions alike (steps.foldl expressions.work first)
        (others.foldl (expressions.renamed names).work second) := by
    induction alikeSteps generalizing first second with
    | nil => exact begun
    | cons same _ inductionHypothesis =>
      exact inductionHypothesis _ _ (congruence.work begun same)
  have reached := worked { seen } { seen } ⟨.nil, rfl, rfl⟩
  have finished := congruence.finish reached.stack (steps.foldl expressions.work { seen }).seen
  rw [← reached.seen] at finished
  refine ⟨?_, ?_⟩
  · simpa only [Expressions.assemble, reached.seen] using finished.value
  · simp only [Expressions.assemble, reached.diagnostics, reached.seen] at finished ⊢
    rw [finished.diagnostics]

/-! ## The steps of a run -/

/-- The run makes steps that are alike under both choices of names. -/
def AlikeSteps (expressions : Expressions) (names : NodeNames)
    (alike : Tree → Nat → Tree → Nat → Prop) (run : List Tree) : Prop :=
  ∀ depth seen, List.Forall₂ (Step.Alike expressions alike) (expressions.steps depth seen run)
    ((expressions.renamed names).steps depth seen run)

/-- The arguments of a call are related one by one, with the same reports, when the runs in the
elements make steps that are alike. -/
theorem Congruence.arguments (congruence : Congruence expressions names alike) (depth : Nat)
    (place : Token) {elements : List Tree}
    (inner : ∀ name contents, .branch name contents ∈ elements →
      AlikeSteps expressions names alike contents) :
    SameReports (List.Forall₂ fun tree other => alike tree 0 other 0)
      (expressions.arguments depth place elements)
      ((expressions.renamed names).arguments depth place elements) := by
  induction elements with
  | nil =>
    rw [Expressions.arguments, Expressions.arguments]
    exact ⟨.nil, rfl⟩
  | cons element rest inductionHypothesis =>
    have others := inductionHypothesis fun name contents member =>
      inner name contents (List.mem_cons_of_mem _ member)
    cases element with
    | leaf token =>
      rw [Expressions.arguments, Expressions.arguments]
      exact ⟨others.value, by rw [others.diagnostics]⟩
    | branch name contents =>
      have argument := congruence.assemble
        (inner name contents List.mem_cons_self (depth + 1) (some place)) (some place)
      rw [Expressions.arguments, Expressions.arguments]
      simp only
      split
      · refine ⟨?_, by rw [argument.diagnostics, others.diagnostics]⟩
        simp only [← congruence.isEmpty argument.value]
        split
        · exact others.value
        · exact .cons argument.value others.value
      · exact ⟨others.value, by rw [others.diagnostics]⟩

/-- A call comes to related trees, with the same reports, when the runs in its elements make steps
that are alike. The nodes of calls have no open ones at their top. -/
theorem Congruence.callOf (congruence : Congruence expressions names alike) (depth : Nat)
    (callee : Token) {elements : List Tree}
    (inner : ∀ name contents, .branch name contents ∈ elements →
      AlikeSteps expressions names alike contents) :
    SameReports (fun tree other => alike tree 0 other 0)
      (expressions.call depth callee elements)
      ((expressions.renamed names).call depth callee elements) := by
  have given := congruence.arguments depth
    (Expressions.site (.branch expressions.names.expression elements) (some callee)) inner
  unfold Expressions.call
  simp only
  split
  · exact ⟨congruence.empty, rfl⟩
  · split
    · exact ⟨congruence.call .nil, rfl⟩
    · exact ⟨congruence.call given.value, given.diagnostics⟩

/-- A group comes to related trees, with the same reports, when the runs in its elements make steps
that are alike. -/
theorem Congruence.groupOf (congruence : Congruence expressions names alike) (depth : Nat)
    (seen : Option Token) {elements : List Tree}
    (inner : ∀ name contents, .branch name contents ∈ elements →
      AlikeSteps expressions names alike contents) :
    SameReports (fun tree other => alike tree 0 other 0)
      (expressions.group depth seen elements)
      ((expressions.renamed names).group depth seen elements) := by
  unfold Expressions.group
  simp only
  split
  · rename_i name contents
    split
    · split
      · exact ⟨congruence.empty, rfl⟩
      · exact congruence.assemble (inner name contents List.mem_cons_self (depth + 1) _) _
    · exact ⟨congruence.empty, rfl⟩
  · exact ⟨congruence.empty, rfl⟩
  · exact ⟨congruence.empty, rfl⟩

/-- A leaf makes steps that are alike, since its kind does not depend on the names of nodes. -/
theorem Congruence.leafStep (congruence : Congruence expressions names alike) (token : Token) :
    Step.Alike expressions alike (expressions.leafStep token)
      ((expressions.renamed names).leafStep token) := by
  have undeclared (notOperator : ∀ operator, expressions.classify token ≠ .operator operator) :
      expressions.operator? token.value = none := by
    rw [Option.eq_none_iff_forall_not_mem]
    intro operator found
    exact notOperator operator (classify_eq_operator_iff.mpr found)
  have part : (expressions.renamed names).leafPart token = expressions.leafPart token := rfl
  refine ⟨?_, rfl, rfl⟩
  rw [Expressions.leafStep, Expressions.leafStep, part, leafPart]
  cases kind : expressions.classify token with
  | operator operator => exact .operator (classify_eq_operator_iff.mp kind)
  | literal => exact .operand (congruence.value (undeclared (by simp [kind])))
  | symbol => exact .operand (congruence.value (undeclared (by simp [kind])))
  | other => exact .nothing

/-- A run makes steps that are alike under both choices of names.

Proof: the induction follows the run. Wrappers and their elements have the same names in both
runs, so both go the same way, and the runs in the elements are worked off in turn. -/
theorem Congruence.steps (congruence : Congruence expressions names alike) (run : List Tree) :
    AlikeSteps expressions names alike run := by
  induction run using run_induction expressions with
  | nothing =>
    intro depth seen
    rw [Expressions.steps, Expressions.steps]
    exact .nil
  | leaf token rest alone inductionHypothesis =>
    intro depth seen
    rw [steps_leaf _ _ _ _ _ alone, (expressions.renamed names).steps_leaf _ _ _ _ alone]
    exact .cons (congruence.leafStep token) (inductionHypothesis depth _)
  | call callee elements others symbol inner inductionHypothesis =>
    intro depth seen
    have called := congruence.callOf depth callee inner
    have own := (expressions.renamed names).steps_call depth seen callee symbol elements others
    rw [steps_call _ _ _ _ symbol, own]
    exact .cons ⟨.operand called.value, rfl, called.diagnostics⟩ (inductionHypothesis depth _)
  | group elements rest inner inductionHypothesis =>
    intro depth seen
    have grouped := congruence.groupOf depth seen inner
    have own := (expressions.renamed names).steps_group depth seen elements rest
    rw [steps_group, own]
    exact .cons ⟨.operand grouped.value, rfl, grouped.diagnostics⟩ (inductionHypothesis depth _)
  | stray name elements rest stray inductionHypothesis =>
    intro depth seen
    have own := (expressions.renamed names).steps_stray_eq depth seen stray elements rest
    rw [steps_stray_eq _ _ _ stray, own]
    exact .cons ⟨.nothing, rfl, rfl⟩ (inductionHypothesis depth _)

/-- A tree is resolved to related trees under both choices of names, with the same
diagnostics. -/
theorem Congruence.resolve (congruence : Congruence expressions names alike) (tree : Tree) :
    SameReports (fun tree other => alike tree 0 other 0) (expressions.resolve tree)
      ((expressions.renamed names).resolve tree) := by
  rw [resolve_eq, resolve_eq]
  exact congruence.assemble (congruence.steps (runOf tree) 0 none) none

end Expressions

end Parlance
