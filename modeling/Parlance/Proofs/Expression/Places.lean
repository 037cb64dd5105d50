import Parlance.Proofs.Expression.Exchange
import Parlance.Proofs.Places

/-!
# Expressions do not depend on places

What a leaf is in a run is read off its text and its class, and precedences are found by the
text of an operator. The token that a diagnostic points at is the last one of a tree, or else
the one seen last, and neither is chosen by its position. So moving all tokens of a tree moves
the tokens of its expression and of what is reported, and changes nothing else.
-/

namespace Parlance.Expressions

variable (expressions : Expressions)

/-! ## The stack -/

/-- An entry of the stack without places. -/
def Item.unplaced : Item → Item
  | .operand tree spine => .operand tree.unplaced spine
  | .pending leaf operator => .pending leaf.unplaced operator

/-- The precedence that a node shows on a spine depends on its name and its operator only. The
operator is looked up by its value. -/
@[simp] theorem spinePrecedence?_unplaced (tree : Tree) :
    expressions.spinePrecedence? tree.unplaced = expressions.spinePrecedence? tree := by
  cases tree with
  | leaf token => rfl
  | branch name children =>
    simp only [Tree.unplaced_branch, spinePrecedence?, List.getElem?_map]
    split
    · cases children[1]? <;> simp
    · split
      · cases children[0]? <;> simp
      · rfl

/-- The descent along a spine follows precedences, which no place changes. By induction over the
length of the spine. -/
theorem graft_unplaced (precedence : Int) (make moved : Tree → Tree)
    (makes : ∀ tree, moved tree.unplaced = (make tree).unplaced) (spine : Nat) (tree : Tree) :
    expressions.graft precedence moved spine tree.unplaced =
      ((expressions.graft precedence make spine tree).1.unplaced,
        (expressions.graft precedence make spine tree).2) := by
  induction spine generalizing tree with
  | zero => simp [graft, makes]
  | succ spine inductionHypothesis =>
    have made := makes tree
    cases tree with
    | leaf token => simpa [graft, spinePrecedence?] using made
    | branch name children =>
      rcases List.eq_nil_or_concat' children with rfl | ⟨front, last, rfl⟩
      · cases held : expressions.spinePrecedence? (.branch name []) <;>
          simpa [graft, held] using made
      · have held := expressions.spinePrecedence?_unplaced (.branch name (front ++ [last]))
        rw [Tree.unplaced_branch, List.map_append, List.map_singleton] at held made ⊢
        rw [graft_node, graft_node, held, made, inductionHypothesis]
        split <;> simp

/-- An operator does the same to the stack wherever the tokens stand. What is done depends on the
arity of the operator and on the kind of the top entry. -/
theorem pushOperator_unplaced (stack : List Item) (leaf : Token) (operator : Operator) :
    expressions.pushOperator (stack.map Item.unplaced) leaf.unplaced operator =
      (expressions.pushOperator stack leaf operator).unplaced (·.map Item.unplaced) := by
  cases stack with
  | nil =>
    cases arity : operator.arity <;>
      simp [pushOperator, arity, Reported.unplaced, Item.unplaced, Problem.diagnose_unplaced]
  | cons item below =>
    cases item with
    | pending waiting held =>
      cases arity : operator.arity <;>
        simp [pushOperator, arity, Reported.unplaced, Item.unplaced, Problem.diagnose_unplaced]
    | operand tree spine =>
      have grafted := expressions.graft_unplaced operator.precedence
        (fun operand => .branch expressions.names.unaryLeft [operand, .leaf leaf])
        (fun operand => .branch expressions.names.unaryLeft [operand, .leaf leaf.unplaced])
        (fun operand => by simp) spine tree
      cases arity : operator.arity <;>
        simp [pushOperator, arity, Reported.unplaced, Item.unplaced, grafted]

/-- An operand is given to the same operators, and those without a left operand are
reported alike.

Proof: the induction follows the waiting operators, as on the stack with places. -/
theorem pushOperand_unplaced (stack : List Item) (tree : Tree) (spine : Nat) :
    expressions.pushOperand (stack.map Item.unplaced) tree.unplaced spine =
      (expressions.pushOperand stack tree spine).unplaced (·.map Item.unplaced) := by
  fun_induction pushOperand expressions stack tree spine with
  | case1 leaf operator tree spine isBinary left leftSpine below grafted depth equal =>
    have result := expressions.graft_unplaced operator.precedence
      (fun operand => .branch expressions.names.binary [operand, .leaf leaf, tree])
      (fun operand => .branch expressions.names.binary
        [operand, .leaf leaf.unplaced, tree.unplaced])
      (fun operand => by simp) leftSpine left
    rw [equal] at result
    simp [pushOperand, isBinary, Item.unplaced, Reported.unplaced, result]
  | case2 leaf operator below tree spine isBinary noOperand inductionHypothesis =>
    have noOperandEither : ∀ left leftSpine others,
        below.map Item.unplaced ≠ .operand left leftSpine :: others := by
      cases below with
      | nil => simp
      | cons item others =>
        cases item with
        | operand left leftSpine => exact absurd rfl (noOperand left leftSpine others)
        | pending waiting held => simp [Item.unplaced]
    rw [List.map_cons, Item.unplaced, pushOperand.eq_def]
    simp only [isBinary, if_true]
    rw [inductionHypothesis]
    simp [Reported.unplaced, Problem.diagnose_unplaced]
  | case3 leaf operator below tree spine notBinary inductionHypothesis =>
    rw [Tree.unplaced_branch] at inductionHypothesis
    rw [List.map_cons, Item.unplaced, pushOperand.eq_def]
    simp only [notBinary, if_false]
    exact inductionHypothesis
  | case4 stack tree spine settled =>
    cases stack with
    | nil => rfl
    | cons item below =>
      cases item with
      | operand other otherSpine => rfl
      | pending waiting held => exact absurd rfl (settled waiting held below)

/-- A part of a run without places. -/
def Part.unplaced : Part → Part
  | .operator leaf declared => .operator leaf.unplaced declared
  | .operand tree => .operand tree.unplaced
  | .nothing => .nothing

/-- A part of a run does the same to the stack wherever the tokens stand. -/
theorem push_unplaced (stack : List Item) (part : Part) :
    expressions.push (stack.map Item.unplaced) part.unplaced =
      (expressions.push stack part).unplaced (·.map Item.unplaced) := by
  cases part with
  | operator leaf operator => exact expressions.pushOperator_unplaced stack leaf operator
  | operand tree => exact expressions.pushOperand_unplaced stack tree 0
  | nothing => rfl

/-! ## Working off a run -/

/-- A step of a run without places. -/
def Step.unplaced (step : Step) : Step where
  part := step.part.unplaced
  seen := step.seen.map Token.unplaced
  diagnostics := step.diagnostics.map Diagnostic.unplaced

/-- A run that is being worked off, without places. -/
def Working.unplaced (working : Working) : Working where
  stack := working.stack.map Item.unplaced
  seen := working.seen.map Token.unplaced
  diagnostics := working.diagnostics.map Diagnostic.unplaced

/-- Working off a step does not look at places. -/
theorem work_unplaced (working : Working) (step : Step) :
    expressions.work working.unplaced step.unplaced =
      (expressions.work working step).unplaced := by
  have pushed := expressions.push_unplaced working.stack step.part
  simp [work_eq, Working.unplaced, Step.unplaced, pushed, Reported.unplaced]

/-- Working off several steps does not look at places. -/
theorem works_unplaced (steps : List Step) (working : Working) :
    (steps.map Step.unplaced).foldl expressions.work working.unplaced =
      (steps.foldl expressions.work working).unplaced := by
  induction steps generalizing working with
  | nil => rfl
  | cons step steps inductionHypothesis =>
    rw [List.map_cons, List.foldl_cons, work_unplaced, inductionHypothesis, List.foldl_cons]

/-- A diagnostic about a tree points at the same token: its last one, or the one seen
last. The token of no place in particular has none to lose. -/
@[simp] theorem site_unplaced (tree : Tree) (seen : Option Token) :
    site tree.unplaced (seen.map Token.unplaced) = (site tree seen).unplaced := by
  unfold site
  rw [Tree.lastToken?_unplaced]
  cases tree.lastToken? with
  | some token => rfl
  | none => cases seen <;> rfl

/-- A tree that is left out is reported at the same token, moved. -/
theorem omitted_unplaced (problem : Problem) (place : Token) :
    { value := .empty, diagnostics := [problem.diagnose place.unplaced] } =
      Reported.unplaced Tree.unplaced
        { value := .empty, diagnostics := [problem.diagnose place] } := by
  simp [Reported.unplaced, Problem.diagnose_unplaced]

/-- The end of a run comes to the same tree and reports the same wherever the tokens stand. An
operator that is left over is reported at its own token, and operands at the site of the last of
them. -/
theorem finish_unplaced (stack : List Item) (seen : Option Token) :
    finish (stack.map Item.unplaced) (seen.map Token.unplaced) =
      (finish stack seen).unplaced Tree.unplaced := by
  fun_cases finish stack seen with
  | case1 => rfl
  | case2 tree spine => rfl
  | case3 leaf operator below => exact omitted_unplaced _ leaf
  | case4 tree spine below several =>
    cases below with
    | nil => exact absurd rfl several
    | cons item below =>
      have moved := omitted_unplaced .unexpectedArgumentList (site tree seen)
      rw [← site_unplaced] at moved
      exact moved

/-- The tree of a run and what is reported about it do not depend on places. -/
theorem assemble_unplaced (seen : Option Token) (steps : List Step) :
    expressions.assemble (seen.map Token.unplaced) (steps.map Step.unplaced) =
      (expressions.assemble seen steps).unplaced Tree.unplaced := by
  have worked := expressions.works_unplaced steps { seen }
  have begun : Working.unplaced { seen } = { seen := seen.map Token.unplaced } := rfl
  rw [begun] at worked
  simp [assemble, worked, Working.unplaced, finish_unplaced, Reported.unplaced]

/-! ## The steps of a run -/

/-- A leaf makes the same step wherever its token stands. -/
theorem leafStep_unplaced (token : Token) :
    expressions.leafStep token.unplaced = (expressions.leafStep token).unplaced := by
  -- The kind of a token depends on its class and its text only.
  have sameKind : expressions.classify token.unplaced = expressions.classify token := rfl
  unfold leafStep leafPart
  rw [sameKind]
  cases expressions.classify token <;>
    simp [Step.unplaced, Part.unplaced, Problem.diagnose_unplaced]

/-- The run makes the same steps wherever its tokens stand. -/
def IgnoresPlaces (run : List Tree) : Prop :=
  ∀ depth seen, expressions.steps depth (seen.map Token.unplaced) (run.map Tree.unplaced) =
    (expressions.steps depth seen run).map Step.unplaced

variable {expressions}

/-- The run in a wrapper is resolved alike as long as it makes the same steps. -/
theorem IgnoresPlaces.assemble_inner {contents : List Tree}
    (ignores : expressions.IgnoresPlaces contents) (depth : Nat) (place : Token) :
    expressions.assemble (some place.unplaced)
        (expressions.steps depth (some place.unplaced) (contents.map Tree.unplaced)) =
      (expressions.assemble (some place)
        (expressions.steps depth (some place) contents)).unplaced Tree.unplaced := by
  have same := ignores depth (some place)
  rw [Option.map_some] at same
  rw [same]
  exact expressions.assemble_unplaced (some place) _

/-- The arguments of a call are resolved alike wherever their tokens stand, if the runs in the
elements are. -/
theorem arguments_unplaced (depth : Nat) (place : Token) {elements : List Tree}
    (inner : ∀ name contents, .branch name contents ∈ elements →
      expressions.IgnoresPlaces contents) :
    expressions.arguments depth place.unplaced (elements.map Tree.unplaced) =
      (expressions.arguments depth place elements).unplaced (·.map Tree.unplaced) := by
  induction elements with
  | nil => simp [arguments, Reported.unplaced]
  | cons element rest inductionHypothesis =>
    have others := inductionHypothesis fun name contents member =>
      inner name contents (List.mem_cons_of_mem _ member)
    cases element with
    | leaf token =>
      simp [arguments, others, Reported.unplaced, Problem.diagnose_unplaced]
    | branch name contents =>
      have argument := (inner name contents List.mem_cons_self).assemble_inner (depth + 1) place
      rw [List.map_cons, Tree.unplaced_branch, arguments, arguments, others, argument,
        List.isEmpty_map]
      simp only
      split
      · simp only [Reported.unplaced, Tree.isEmpty_unplaced, List.map_append]
        split <;> rfl
      · simp [Reported.unplaced, Problem.diagnose_unplaced]

/-- A call is resolved alike wherever its tokens stand, if the runs in its elements are. Whether
there are arguments at all is a question of shape, in which places play no part. -/
theorem call_unplaced (depth : Nat) (callee : Token) {elements : List Tree}
    (inner : ∀ name contents, .branch name contents ∈ elements →
      expressions.IgnoresPlaces contents) :
    expressions.call depth callee.unplaced (elements.map Tree.unplaced) =
      (expressions.call depth callee elements).unplaced Tree.unplaced := by
  have place := site_unplaced (.branch expressions.names.expression elements) (some callee)
  rw [Tree.unplaced_branch, Option.map_some] at place
  have given := arguments_unplaced depth
    (site (.branch expressions.names.expression elements) (some callee)) inner
  unfold call
  simp only [place, given, List.map_map, Function.comp_def, Tree.isChildless_unplaced]
  split
  · exact omitted_unplaced _ _
  · split <;> simp [Reported.unplaced]

/-- A group is resolved alike wherever its tokens stand, if the runs in its elements are. The shapes
of a group are looked at one by one, and only a group of one element has a run inside. -/
theorem group_unplaced (depth : Nat) (seen : Option Token) {elements : List Tree}
    (inner : ∀ name contents, .branch name contents ∈ elements →
      expressions.IgnoresPlaces contents) :
    expressions.group depth (seen.map Token.unplaced) (elements.map Tree.unplaced) =
      (expressions.group depth seen elements).unplaced Tree.unplaced := by
  have place := site_unplaced (.branch expressions.names.expression elements) seen
  rw [Tree.unplaced_branch] at place
  unfold group
  simp only [place]
  cases elements with
  | nil => exact omitted_unplaced _ _
  | cons element others =>
    cases others with
    | cons second rest => cases element <;> exact omitted_unplaced _ _
    | nil =>
      cases element with
      | leaf token => exact omitted_unplaced _ _
      | branch name contents =>
        have argument := (inner name contents List.mem_cons_self).assemble_inner (depth + 1)
          (site (.branch expressions.names.expression [.branch name contents]) seen)
        simp only [List.map_cons, List.map_nil, Tree.unplaced_branch, List.isEmpty_map, argument]
        split
        · split
          · exact omitted_unplaced _ _
          · rfl
        · exact omitted_unplaced _ _

variable (expressions)

/-- A wrapper stays one without places, and no other tree becomes one. Wrappers are told by their
names. -/
theorem map_unplaced_ne_wrapper {rest : List Tree}
    (alone : ∀ elements others, rest ≠ .branch expressions.names.expression elements :: others)
    (elements others : List Tree) :
    rest.map Tree.unplaced ≠ .branch expressions.names.expression elements :: others := by
  cases rest with
  | nil => simp
  | cons tree rest =>
    cases tree with
    | leaf token => simp
    | branch name contents =>
      have other : name ≠ expressions.names.expression := by
        rintro rfl
        exact alone contents rest rfl
      simp [other]

/-- The token seen last behind a branch is the same one, moved. -/
theorem seen_unplaced (name : String) (elements : List Tree) (seen : Option Token) :
    (Tree.branch name (elements.map Tree.unplaced)).lastToken?.or (seen.map Token.unplaced) =
      ((Tree.branch name elements).lastToken?.or seen).map Token.unplaced := by
  rw [← Tree.unplaced_branch, Tree.lastToken?_unplaced, Option.map_or]

/-- The steps of a run do not depend on places.

Proof: the induction follows the run; the runs in the elements of a wrapper are runs of their
own, begun with the site of the wrapper as the token seen last. -/
theorem steps_unplaced (run : List Tree) : expressions.IgnoresPlaces run := by
  induction run using run_induction expressions with
  | nothing =>
    intro depth seen
    simp [steps]
  | leaf token rest alone inductionHypothesis =>
    intro depth seen
    have stillAlone (symbol : expressions.classify token.unplaced = .symbol) :=
      expressions.map_unplaced_ne_wrapper (alone symbol)
    have behind := inductionHypothesis depth (some token)
    rw [Option.map_some] at behind
    rw [List.map_cons, Tree.unplaced_leaf, steps_leaf _ _ _ _ _ stillAlone,
      steps_leaf _ _ _ _ _ alone, leafStep_unplaced, behind, List.map_cons]
  | call callee elements others symbol inner inductionHypothesis =>
    intro depth seen
    have stillSymbol : expressions.classify callee.unplaced = .symbol := symbol
    have behind := inductionHypothesis depth (some callee)
    rw [Option.map_some] at behind
    rw [List.map_cons, List.map_cons, Tree.unplaced_leaf, Tree.unplaced_branch,
      steps_call _ _ _ _ stillSymbol, steps_call _ _ _ _ symbol,
      call_unplaced depth callee inner, behind, List.map_cons]
    rfl
  | group elements rest inner inductionHypothesis =>
    intro depth seen
    rw [List.map_cons, Tree.unplaced_branch, steps_group, steps_group,
      group_unplaced depth seen inner, seen_unplaced, inductionHypothesis, List.map_cons]
    rfl
  | stray name elements rest stray inductionHypothesis =>
    intro depth seen
    have place := site_unplaced (.branch name elements) seen
    rw [Tree.unplaced_branch] at place
    rw [List.map_cons, Tree.unplaced_branch, steps_stray_eq _ _ _ stray,
      steps_stray_eq _ _ _ stray, place, seen_unplaced, inductionHypothesis, List.map_cons,
      Problem.diagnose_unplaced]
    rfl

/-- Moving the tokens of a tree moves the tokens of its expression and of what is reported,
and changes nothing else. -/
theorem resolve_unplaced (tree : Tree) :
    expressions.resolve tree.unplaced =
      (expressions.resolve tree).unplaced Tree.unplaced := by
  have run : runOf tree.unplaced = (runOf tree).map Tree.unplaced := by
    cases tree <;> simp [runOf]
  have same := expressions.steps_unplaced (runOf tree) 0 none
  rw [Option.map_none] at same
  rw [resolve_eq, resolve_eq, run, same]
  exact expressions.assemble_unplaced none _

end Parlance.Expressions
