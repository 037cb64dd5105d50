import Parlance.Expression.Resolve

/-!
# Runs without reports

Working off a run is putting its parts on a stack one after the other. A run
reports nothing exactly when its parts are in order, every operator finds the
operands it needs, and a single operand is left; its tree is that operand.

Every token that a run puts on its stack then stays there. Read from the bottom to
the top, the stack holds the tokens of what was worked off so far in the order of
the text, whatever precedences and names are declared: an operator that goes down a
right spine only ever puts tokens behind those of the node it takes, and that node
is the last one of the tree.
-/

namespace Parlance.Expressions

/-- Put a part of a run on the stack. -/
def push (expressions : Expressions) (stack : List Item) : Part → Reported (List Item)
  | .operator leaf operator => expressions.pushOperator stack leaf operator
  | .operand tree => expressions.pushOperand stack tree 0
  | .nothing => { value := stack }

/-- Put the parts of a run on the stack in turn, and collect what is reported about
operators on the way. -/
def pushAll (expressions : Expressions) : List Item → List Part → Reported (List Item)
  | stack, [] => { value := stack }
  | stack, part :: parts =>
    let pushed := expressions.push stack part
    let others := pushAll expressions pushed.value parts
    { value := others.value, diagnostics := pushed.diagnostics ++ others.diagnostics }

/-- Parts that follow other parts are put on the stack that those leave behind. By induction over
the first parts, which are put on the stack one by one. -/
theorem pushAll_append (expressions : Expressions) (stack : List Item)
    (first second : List Part) :
    expressions.pushAll stack (first ++ second) =
      { value := (expressions.pushAll (expressions.pushAll stack first).value second).value
        diagnostics := (expressions.pushAll stack first).diagnostics ++
          (expressions.pushAll (expressions.pushAll stack first).value second).diagnostics } := by
  induction first generalizing stack with
  | nil => rfl
  | cons part parts inductionHypothesis =>
    simp only [List.cons_append, pushAll, inductionHypothesis, List.append_assoc]

/-- Working off a step is putting its part on the stack and keeping what was
reported before it, about it and by it, in this order. -/
theorem work_eq (expressions : Expressions) (working : Working) (step : Step) :
    expressions.work working step =
      { stack := (expressions.push working.stack step.part).value
        seen := step.seen
        diagnostics := working.diagnostics ++ step.diagnostics ++
          (expressions.push working.stack step.part).diagnostics } := by
  unfold work push
  cases step.part <;> rfl

/-- Working off steps is putting their parts on the stack. It reports nothing exactly
when nothing was reported before, about a step, or about an operator. -/
theorem run_eq (expressions : Expressions) (steps : List Step) (working : Working) :
    (steps.foldl expressions.work working).stack =
        (expressions.pushAll working.stack (steps.map (·.part))).value ∧
      ((steps.foldl expressions.work working).diagnostics = [] ↔
        working.diagnostics = [] ∧ (∀ step ∈ steps, step.diagnostics = []) ∧
          (expressions.pushAll working.stack (steps.map (·.part))).diagnostics = []) := by
  induction steps generalizing working with
  | nil => simp [pushAll]
  | cons step steps inductionHypothesis =>
    obtain ⟨reached, silent⟩ := inductionHypothesis (expressions.work working step)
    refine ⟨by simpa [work_eq, pushAll] using reached, ?_⟩
    rw [List.foldl_cons, silent]
    simp only [work_eq, List.map_cons, pushAll, List.append_eq_nil_iff, List.forall_mem_cons]
    constructor
    · rintro ⟨⟨⟨before, about⟩, pushed⟩, others, rest⟩
      exact ⟨before, ⟨about, others⟩, pushed, rest⟩
    · rintro ⟨before, ⟨about, others⟩, pushed, rest⟩
      exact ⟨⟨⟨before, about⟩, pushed⟩, others, rest⟩

/-- A run is finished without a report exactly when its stack is empty or holds one
operand. -/
theorem finish_silent_iff (stack : List Item) (seen : Option Token) :
    (finish stack seen).diagnostics = [] ↔
      stack = [] ∨ ∃ tree spine, stack = [.operand tree spine] := by
  unfold finish
  split <;> simp_all

/-- A run reports nothing exactly when nothing is reported about its steps or its
operators and a single operand, or nothing at all, is left on the stack. -/
theorem assemble_silent_iff (expressions : Expressions) (seen : Option Token)
    (steps : List Step) :
    (expressions.assemble seen steps).diagnostics = [] ↔
      (∀ step ∈ steps, step.diagnostics = []) ∧
        (expressions.pushAll [] (steps.map (·.part))).diagnostics = [] ∧
        ((expressions.pushAll [] (steps.map (·.part))).value = [] ∨
          ∃ tree spine,
            (expressions.pushAll [] (steps.map (·.part))).value = [.operand tree spine]) := by
  obtain ⟨reached, silent⟩ := expressions.run_eq steps { seen }
  simp only [assemble, List.append_eq_nil_iff, silent, finish_silent_iff, reached]
  simp [and_assoc]

/-- The tree of a run is that of its only operand. -/
theorem assemble_value (expressions : Expressions) (seen : Option Token) (steps : List Step)
    (tree : Tree) (spine : Nat)
    (alone : (expressions.pushAll [] (steps.map (·.part))).value = [.operand tree spine]) :
    (expressions.assemble seen steps).value = tree := by
  have reached := (expressions.run_eq steps { seen }).1
  rw [alone] at reached
  simp [assemble, reached, finish]

/-! ## Leaves -/

/-- The tokens of an entry of the stack in the order of the text. -/
def Item.leaves : Item → List Token
  | .operand tree _ => tree.leaves
  | .pending leaf _ => [leaf]

/-- The tokens of a stack in the order of the text. The head of the list is the top
of the stack, which holds what stands last in the text. -/
def stackLeaves : List Item → List Token
  | [] => []
  | item :: below => stackLeaves below ++ item.leaves

/-- The tokens that a part of a run contributes. -/
def Part.leaves : Part → List Token
  | .operator leaf _ => [leaf]
  | .operand tree => tree.leaves
  | .nothing => []

/-- Grafting adds the tokens that `make` adds, behind all others: the node reached
is the last one of the tree at every level on the way down. -/
theorem graft_leaves (expressions : Expressions) (precedence : Int) (make : Tree → Tree)
    (added : List Token) (adds : ∀ tree, (make tree).leaves = tree.leaves ++ added)
    (spine : Nat) (tree : Tree) :
    (expressions.graft precedence make spine tree).1.leaves = tree.leaves ++ added := by
  induction spine generalizing tree with
  | zero => exact adds tree
  | succ spine inductionHypothesis =>
    unfold graft
    split
    · rename_i held name children _
      split
      · rename_i last isLast
        obtain ⟨front, rfl⟩ := List.getLast?_eq_some_iff.mp isLast
        split
        · simp [Tree.leaves, Tree.leavesAll, Tree.leavesAll_append, inductionHypothesis last]
        · exact adds _
      · exact adds _
    · exact adds _

/-- An operator that is not reported is put behind the tokens of the stack, as a
waiting entry or inside the operand that it takes. -/
theorem pushOperator_leaves (expressions : Expressions) (stack : List Item) (leaf : Token)
    (operator : Operator)
    (silent : (expressions.pushOperator stack leaf operator).diagnostics = []) :
    stackLeaves (expressions.pushOperator stack leaf operator).value =
      stackLeaves stack ++ [leaf] := by
  unfold pushOperator at silent ⊢
  split at silent
  · rfl
  · rfl
  · rename_i tree spine below _ _
    have behind := expressions.graft_leaves operator.precedence
      (fun operand => .branch expressions.names.unaryLeft [operand, .leaf leaf]) [leaf]
      (fun _ => by simp [Tree.leaves, Tree.leavesAll]) spine tree
    simp [stackLeaves, Item.leaves, behind]
  · rfl
  · simp at silent

/-- An operand whose operators are not reported is put behind the tokens of the
stack. The operators that take it stand before it on the stack as in the text.

Proof: the induction follows the waiting operators. A prefix operator joins its
operand, a binary operator ends the descent on the operand below it, and a binary
operator without one is excluded by its report. -/
theorem pushOperand_leaves (expressions : Expressions) (stack : List Item) (tree : Tree)
    (spine : Nat) (silent : (expressions.pushOperand stack tree spine).diagnostics = []) :
    stackLeaves (expressions.pushOperand stack tree spine).value =
      stackLeaves stack ++ tree.leaves := by
  fun_induction pushOperand expressions stack tree spine with
  | case1 leaf operator tree spine isBinary left leftSpine below grafted depth equal =>
    have behind := expressions.graft_leaves operator.precedence
      (fun operand => .branch expressions.names.binary [operand, .leaf leaf, tree])
      (leaf :: tree.leaves) (fun _ => by simp [Tree.leaves, Tree.leavesAll]) leftSpine left
    rw [equal] at behind
    simp [stackLeaves, Item.leaves, behind]
  | case2 => simp at silent
  | case3 leaf operator below tree spine notBinary inductionHypothesis =>
    rw [inductionHypothesis silent]
    simp [stackLeaves, Item.leaves, Tree.leaves, Tree.leavesAll]
  | case4 => rfl

/-- A part that is put on the stack without a report adds exactly its tokens. -/
theorem push_leaves (expressions : Expressions) (stack : List Item) (part : Part)
    (silent : (expressions.push stack part).diagnostics = []) :
    stackLeaves (expressions.push stack part).value = stackLeaves stack ++ part.leaves := by
  cases part with
  | operator leaf operator => exact expressions.pushOperator_leaves stack leaf operator silent
  | operand tree => exact expressions.pushOperand_leaves stack tree 0 silent
  | nothing => simp [push, Part.leaves]

/-- Parts that are put on the stack without a report add exactly their tokens. By induction over the
parts, none of which is dropped, because that would be reported. -/
theorem pushAll_leaves (expressions : Expressions) (stack : List Item) (parts : List Part)
    (silent : (expressions.pushAll stack parts).diagnostics = []) :
    stackLeaves (expressions.pushAll stack parts).value =
      stackLeaves stack ++ parts.flatMap Part.leaves := by
  induction parts generalizing stack with
  | nil => simp [pushAll]
  | cons part parts inductionHypothesis =>
    obtain ⟨pushed, others⟩ := List.append_eq_nil_iff.mp silent
    simp only [pushAll, inductionHypothesis _ others, expressions.push_leaves stack part pushed,
      List.flatMap_cons, List.append_assoc]

/-- The tree of a run without reports has exactly the tokens of the run's parts, in
their order. -/
theorem assemble_leaves (expressions : Expressions) (seen : Option Token) (steps : List Step)
    (silent : (expressions.assemble seen steps).diagnostics = []) :
    (expressions.assemble seen steps).value.leaves = steps.flatMap (·.part.leaves) := by
  obtain ⟨_, pushed, left⟩ := (expressions.assemble_silent_iff seen steps).mp silent
  have onStack := expressions.pushAll_leaves [] (steps.map (·.part)) pushed
  rw [List.flatMap_map] at onStack
  rcases left with empty | ⟨tree, spine, alone⟩
  · have reached := (expressions.run_eq steps { seen }).1
    rw [empty] at onStack reached
    have nothing : (expressions.assemble seen steps).value = .empty := by
      simp [assemble, reached, finish]
    rw [nothing]
    exact onStack
  · rw [alone] at onStack
    rw [expressions.assemble_value seen steps tree spine alone]
    simpa [stackLeaves, Item.leaves] using onStack

/-! ## Steps -/

/-- The run that a tree stands for: the children of a branch, or a leaf by itself. -/
def runOf : Tree → List Tree
  | .leaf token => [.leaf token]
  | .branch _ children => children

/-- The run that a tree stands for has the leaves of the tree. -/
theorem leavesAll_runOf (tree : Tree) : Tree.leavesAll (runOf tree) = tree.leaves := by
  cases tree <;> simp [runOf, Tree.leaves, Tree.leavesAll]

/-- Resolving a tree is working off the steps of its run. -/
theorem resolve_eq (expressions : Expressions) (tree : Tree) :
    expressions.resolve tree =
      expressions.assemble none (expressions.steps 0 none (runOf tree)) := by
  cases tree <;> rfl

/-- What a leaf contributes to a run in which no group stands behind it. -/
def leafPart (expressions : Expressions) (token : Token) : Part :=
  match expressions.classify token with
  | .operator operator => .operator token operator
  | .literal | .symbol => .operand (.leaf token)
  | .other => .nothing

/-- The step of a leaf in a run in which no group stands behind it. -/
def leafStep (expressions : Expressions) (token : Token) : Step where
  part := expressions.leafPart token
  seen := some token
  diagnostics :=
    if expressions.classify token = .other then [Problem.unexpectedToken.diagnose token] else []

/-- A leaf that is not the callee of a call makes a step of its own. A callee is a symbol with a
wrapper right behind it, so the leaf is none. -/
theorem steps_leaf (expressions : Expressions) (depth : Nat) (seen : Option Token)
    (token : Token) (rest : List Tree)
    (alone : expressions.classify token = .symbol →
      ∀ elements others, rest ≠ .branch expressions.names.expression elements :: others) :
    expressions.steps depth seen (.leaf token :: rest) =
      expressions.leafStep token :: expressions.steps depth (some token) rest := by
  by_cases branch : ∃ name elements others, rest = .branch name elements :: others
  · obtain ⟨name, elements, others, rfl⟩ := branch
    have noCall : expressions.classify token = .symbol → name ≠ expressions.names.expression :=
      fun symbol same => alone symbol elements others (by rw [same])
    rw [steps]
    cases kind : expressions.classify token <;> simp_all [leafStep, leafPart]
  · rw [steps]
    · cases kind : expressions.classify token <;> simp [leafStep, leafPart, kind]
    · exact fun name elements others equal => branch ⟨name, elements, others, equal⟩

/-- The steps of a run of leaves are those of its leaves. By induction over the run: every leaf
makes a step of its own. -/
theorem steps_leaves (expressions : Expressions) (depth : Nat) (seen : Option Token)
    (run : List Token) :
    expressions.steps depth seen (run.map .leaf) = run.map expressions.leafStep := by
  induction run generalizing seen with
  | nil => simp [steps]
  | cons token rest inductionHypothesis =>
    -- A leaf or nothing at all follows, so a symbol is never the callee of a call.
    have next (elements others : List Tree) :
        rest.map Tree.leaf ≠ .branch expressions.names.expression elements :: others := by
      cases rest <;> simp
    rw [List.map_cons, List.map_cons, expressions.steps_leaf depth seen token _ (fun _ => next),
      inductionHypothesis]

/-- The call of a symbol with the wrapper behind it. -/
def call (expressions : Expressions) (depth : Nat) (callee : Token) (elements : List Tree) :
    Reported Tree :=
  let place := site (.branch expressions.names.expression elements) (some callee)
  if expressions.maxDepth ≤ depth then
    { value := .empty
      diagnostics := [(Problem.nestingTooDeep expressions.maxDepth).diagnose place] }
  else if elements.map Tree.isChildless = [true] then
    { value := .branch expressions.names.call [.leaf callee] }
  else
    let given := expressions.arguments depth place elements
    { value := .branch expressions.names.call (.leaf callee :: given.value)
      diagnostics := given.diagnostics }

/-- A symbol and the wrapper behind it make the step of a call. The wrapper is taken together with
its symbol, so that both are gone from what is still to read. -/
theorem steps_call (expressions : Expressions) (depth : Nat) (seen : Option Token)
    (callee : Token) (symbol : expressions.classify callee = .symbol)
    (elements others : List Tree) :
    expressions.steps depth seen
        (.leaf callee :: .branch expressions.names.expression elements :: others) =
      { part := .operand (expressions.call depth callee elements).value
        seen := some callee
        diagnostics := (expressions.call depth callee elements).diagnostics } ::
          expressions.steps depth (some callee) others := by
  rw [steps, symbol]
  simp only [if_true]
  rfl

/-- The expression of a group, before which `seen` was the token seen last. -/
def group (expressions : Expressions) (depth : Nat) (seen : Option Token)
    (elements : List Tree) : Reported Tree :=
  let place := site (.branch expressions.names.expression elements) seen
  match elements with
  | [.branch inner contents] =>
    if inner = expressions.names.element && !contents.isEmpty then
      if expressions.maxDepth ≤ depth then
        { value := .empty
          diagnostics := [(Problem.nestingTooDeep expressions.maxDepth).diagnose place] }
      else
        expressions.assemble (some place) (expressions.steps (depth + 1) (some place) contents)
    else { value := .empty, diagnostics := [Problem.expectedExpression.diagnose place] }
  | [_] => { value := .empty, diagnostics := [Problem.expectedExpression.diagnose place] }
  | _ => { value := .empty, diagnostics := [Problem.unexpectedArgumentList.diagnose place] }

/-- A wrapper that is not the argument list of a call makes the step of a group. -/
theorem steps_group (expressions : Expressions) (depth : Nat) (seen : Option Token)
    (elements rest : List Tree) :
    expressions.steps depth seen (.branch expressions.names.expression elements :: rest) =
      { part := .operand (expressions.group depth seen elements).value
        seen := (Tree.branch expressions.names.expression elements).lastToken?.or seen
        diagnostics := (expressions.group depth seen elements).diagnostics } ::
          expressions.steps depth
            ((Tree.branch expressions.names.expression elements).lastToken?.or seen) rest := by
  rw [steps.eq_def]
  simp only [if_true]
  rfl

/-- A branch that is no wrapper is reported. -/
theorem steps_stray (expressions : Expressions) (depth : Nat) (seen : Option Token)
    (name : String) (stray : name ≠ expressions.names.expression) (elements rest : List Tree) :
    ∃ step ∈ expressions.steps depth seen (.branch name elements :: rest),
      step.diagnostics ≠ [] := by
  rw [steps.eq_def]
  simp [stray]

/-- A branch that is no wrapper makes a step that is only reported. -/
theorem steps_stray_eq (expressions : Expressions) (depth : Nat) (seen : Option Token)
    {name : String} (stray : name ≠ expressions.names.expression) (elements rest : List Tree) :
    expressions.steps depth seen (.branch name elements :: rest) =
      { part := .nothing
        seen := (Tree.branch name elements).lastToken?.or seen
        diagnostics := [Problem.unexpectedToken.diagnose (site (.branch name elements) seen)] } ::
          expressions.steps depth ((Tree.branch name elements).lastToken?.or seen) rest := by
  rw [steps.eq_def]
  simp [stray]

/-- A tree among several has no more nodes than all of them. -/
theorem size_le_sizeAll {tree : Tree} {trees : List Tree} (member : tree ∈ trees) :
    tree.size ≤ Tree.sizeAll trees := by
  obtain ⟨front, back, rfl⟩ := List.append_of_mem member
  rw [Tree.sizeAll_append, Tree.sizeAll]
  omega

/-- Induction along the steps of a run. What holds of the rest of a run and of the runs
in the elements of its wrappers holds of the run: a leaf stands by itself, or is the
callee of the wrapper behind it; a branch is a group, or out of place. -/
theorem run_induction (expressions : Expressions) {motive : List Tree → Prop}
    (nothing : motive [])
    (leaf : ∀ (token : Token) (rest : List Tree),
      (expressions.classify token = .symbol →
        ∀ elements others, rest ≠ .branch expressions.names.expression elements :: others) →
      motive rest → motive (.leaf token :: rest))
    (call : ∀ (callee : Token) (elements others : List Tree),
      expressions.classify callee = .symbol →
      (∀ name contents, .branch name contents ∈ elements → motive contents) →
      motive others →
      motive (.leaf callee :: .branch expressions.names.expression elements :: others))
    (group : ∀ elements rest : List Tree,
      (∀ name contents, .branch name contents ∈ elements → motive contents) →
      motive rest → motive (.branch expressions.names.expression elements :: rest))
    (stray : ∀ (name : String) (elements rest : List Tree), name ≠ expressions.names.expression →
      motive rest → motive (.branch name elements :: rest))
    (run : List Tree) : motive run := by
  match run with
  | [] => exact nothing
  | .branch name elements :: rest =>
    have behind := run_induction expressions nothing leaf call group stray rest
    by_cases wrapper : name = expressions.names.expression
    · subst wrapper
      exact group elements rest
        (fun _ contents _ => run_induction expressions nothing leaf call group stray contents)
        behind
    · exact stray name elements rest wrapper behind
  | .leaf token :: rest =>
    by_cases called : expressions.classify token = .symbol ∧
        ∃ elements others, rest = .branch expressions.names.expression elements :: others
    · obtain ⟨symbol, elements, others, wrapped⟩ := called
      have behind := run_induction expressions nothing leaf call group stray others
      rw [wrapped]
      exact call token elements others symbol
        (fun _ contents _ => run_induction expressions nothing leaf call group stray contents)
        behind
    · exact leaf token rest
        (fun symbol elements others equal => called ⟨symbol, elements, others, equal⟩)
        (run_induction expressions nothing leaf call group stray rest)
termination_by Tree.sizeAll run
decreasing_by
  · simp only [Tree.sizeAll, Tree.size]
    omega
  · rename_i member
    have smaller := size_le_sizeAll member
    simp only [Tree.sizeAll, Tree.size] at *
    omega
  · simp only [wrapped, Tree.sizeAll, Tree.size]
    omega
  · rename_i member
    have smaller := size_le_sizeAll member
    simp only [wrapped, Tree.sizeAll, Tree.size] at *
    omega
  · simp only [Tree.sizeAll, Tree.size]
    omega

end Parlance.Expressions
