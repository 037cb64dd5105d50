import Mathlib.Computability.Language
import Parlance.Proofs.Expression.Grouping

/-!
# The runs of leaves that are accepted

A run of leaves is accepted exactly when it reads as an expression: values, each with
any number of operators before it and behind it, and one binary operator between each
value and the next. An operator that may stand on either side of its operand is read
by its place.

Faults of a run are found at different times: a postfix operator without operand as
soon as it comes, a binary operator without left operand when the next value comes,
and all others only when the run ends. What they have in common is the stack that they
leave. A stack from which a run can still be accepted either waits for an operand or
holds a single one, and no part of a run ever turns another stack into one of these.
The two kinds of stack are the two states in which the run is read.
-/

namespace Parlance.Expressions

open Computability

variable {expressions : Expressions}

/-! ## The language of expressions -/

/-- The class of a leaf in a run: deliminators and tokens put in by definitions are
classified anew. -/
def classOf (expressions : Expressions) (token : Token) : Tag :=
  if token.tag = .deliminator ∨ token.tag = .synthetic then
    expressions.chain.classify token.value
  else token.tag

/-- The token is no declared operator, and a symbol or a literal. -/
def NamesValue (expressions : Expressions) (token : Token) : Prop :=
  expressions.operator? token.value = none ∧
    (expressions.classOf token = .symbol ∨ (expressions.classOf token).isLiteral)

/-- The runs of one token with the given property. -/
def single (holds : Token → Prop) : Language Token := { run | ∃ token, holds token ∧ run = [token] }

/-- An operator that can stand before its operand. -/
def operatorBefore (expressions : Expressions) : Language Token :=
  single (expressions.Names [.unaryRight, .unaryBoth])

/-- An operator that can stand behind its operand. -/
def operatorBehind (expressions : Expressions) : Language Token :=
  single (expressions.Names [.unaryLeft, .unaryBoth])

/-- An operator between two operands. -/
def operatorBetween (expressions : Expressions) : Language Token :=
  single (expressions.Names [.binary])

/-- A leaf that stands for a value. -/
def singleValue (expressions : Expressions) : Language Token := single expressions.NamesValue

/-- A value with the unary operators before it and behind it. -/
def operandRun (expressions : Expressions) : Language Token :=
  expressions.operatorBefore∗ * expressions.singleValue * expressions.operatorBehind∗

/-- Values with their unary operators, and binary operators between them. -/
def expressionRun (expressions : Expressions) : Language Token :=
  expressions.operandRun * (expressions.operatorBetween * expressions.operandRun)∗

mutual

/-- The run can follow where an operand is expected. -/
def Opens (expressions : Expressions) : List Token → Prop
  | [] => False
  | token :: rest =>
    expressions.Names [.unaryRight, .unaryBoth] token ∧ Opens expressions rest ∨
      expressions.NamesValue token ∧ Continues expressions rest

/-- The run can follow behind an operand. -/
def Continues (expressions : Expressions) : List Token → Prop
  | [] => True
  | token :: rest =>
    expressions.Names [.unaryLeft, .unaryBoth] token ∧ Continues expressions rest ∨
      expressions.Names [.binary] token ∧ Opens expressions rest

end

/-- The runs that can follow where an operand is expected. -/
def openingRun (expressions : Expressions) : Language Token := { run | expressions.Opens run }

/-- The runs that can follow behind an operand. -/
def continuingRun (expressions : Expressions) : Language Token :=
  { run | expressions.Continues run }

/-- The runs that can follow behind an operand with all its unary operators. -/
def remainingRun (expressions : Expressions) : Language Token :=
  expressions.operatorBetween * expressions.openingRun + 1

/-- A language of single tokens does not have the empty run. -/
theorem nil_not_mem_single (holds : Token → Prop) : [] ∉ single holds := by
  rintro ⟨token, _, empty⟩
  simp at empty

/-- What begins with a single token is not empty. -/
theorem nil_not_mem_single_mul (holds : Token → Prop) (language : Language Token) :
    [] ∉ single holds * language := by
  rintro ⟨_, ⟨token, _, rfl⟩, rest, _, joined⟩
  simp at joined

/-- A run begins with a single token of a kind when its first token is of the kind and the others
are in the language behind it. -/
theorem cons_mem_single_mul {holds : Token → Prop} {language : Language Token} {token : Token}
    {rest : List Token} :
    token :: rest ∈ single holds * language ↔ holds token ∧ rest ∈ language := by
  constructor
  · rintro ⟨_, ⟨first, held, rfl⟩, others, member, joined⟩
    obtain ⟨rfl, rfl⟩ := List.cons.inj joined
    exact ⟨held, member⟩
  · rintro ⟨held, member⟩
    exact ⟨[token], ⟨token, held, rfl⟩, rest, member, rfl⟩

/-- Where an operand is expected, an operator before it changes nothing, and a value
leads on. -/
theorem openingRun_eq : expressions.openingRun =
    expressions.operatorBefore * expressions.openingRun +
      expressions.singleValue * expressions.continuingRun := by
  ext run
  rw [Language.mem_add]
  cases run with
  | nil =>
    have never : ¬ expressions.Opens [] := by simp [Opens]
    exact iff_of_false never (not_or.mpr ⟨nil_not_mem_single_mul _ _, nil_not_mem_single_mul _ _⟩)
  | cons token rest => exact (or_congr cons_mem_single_mul cons_mem_single_mul).symm

/-- Behind an operand, an operator behind it changes nothing, and a binary operator leads
back; the run may also end. -/
theorem continuingRun_eq : expressions.continuingRun =
    expressions.operatorBehind * expressions.continuingRun + expressions.remainingRun := by
  ext run
  rw [Language.mem_add, remainingRun, Language.mem_add]
  cases run with
  | nil =>
    have always : expressions.Continues [] := by simp [Continues]
    exact iff_of_true always (.inr (.inr Language.nil_mem_one))
  | cons token rest =>
    have nonempty : token :: rest ∉ (1 : Language Token) := by simp
    rw [or_iff_left nonempty]
    exact (or_congr cons_mem_single_mul cons_mem_single_mul).symm

/-- The runs that can follow where an operand is expected are the expressions.

Proof: Arden's rule solves the equations of the two states, each of which goes on with
itself after a unary operator. Put into one another, they give an equation for what
remains behind an operand, which the rule solves again. -/
theorem openingRun_eq_expressionRun : expressions.openingRun = expressions.expressionRun := by
  have opened : expressions.openingRun =
      expressions.operatorBefore∗ * (expressions.singleValue * expressions.continuingRun) :=
    (Language.self_eq_mul_add_iff (nil_not_mem_single _)).mp openingRun_eq
  have continued : expressions.continuingRun =
      expressions.operatorBehind∗ * expressions.remainingRun :=
    (Language.self_eq_mul_add_iff (nil_not_mem_single _)).mp continuingRun_eq
  have divided : expressions.openingRun = expressions.operandRun * expressions.remainingRun := by
    rw [opened, continued, operandRun, mul_assoc, mul_assoc]
  have repeated : expressions.remainingRun =
      expressions.operatorBetween * expressions.operandRun * expressions.remainingRun + 1 := by
    rw [mul_assoc, ← divided, remainingRun]
  have remaining : expressions.remainingRun =
      (expressions.operatorBetween * expressions.operandRun)∗ * 1 :=
    (Language.self_eq_mul_add_iff (nil_not_mem_single_mul _ _)).mp repeated
  rw [divided, remaining, mul_one, expressionRun]

/-! ## The two kinds of stack -/

/-- The stack waits for an operand, and an operand settles it: operators that take it
on their right wait on top of nothing, or on top of a binary operator with its left
operand. -/
inductive Awaiting : List Item → Prop where
  | nothing : Awaiting []
  | between {leaf : Token} {operator : Operator} {tree : Tree} {spine : Nat}
      (binary : operator.arity = .binary) :
      Awaiting [.pending leaf operator, .operand tree spine]
  | before {leaf : Token} {operator : Operator} {below : List Item}
      (unary : operator.arity ≠ .binary) (waits : Awaiting below) :
      Awaiting (.pending leaf operator :: below)

/-- The stack holds a single operand. -/
def Settled (stack : List Item) : Prop := ∃ tree spine, stack = [.operand tree spine]

/-- A run can still be accepted from the stack. -/
def Viable (stack : List Item) : Prop := Awaiting stack ∨ Settled stack

/-- A stack that waits has no operand on top. -/
theorem Awaiting.expectsOperand {stack : List Item} (waits : Awaiting stack) :
    ExpectsOperand stack := by
  rintro tree spine below rfl
  cases waits

/-- A stack with an operand on top is viable only if it holds nothing else. -/
theorem viable_operand_iff {tree : Tree} {spine : Nat} {below : List Item} :
    Viable (.operand tree spine :: below) ↔ below = [] := by
  constructor
  · rintro (waits | ⟨_, _, single⟩)
    · exact absurd rfl (waits.expectsOperand _ _ _)
    · exact (List.cons.inj single).2
  · rintro rfl
    exact .inr ⟨tree, spine, rfl⟩

/-- A stack with a waiting operator on top is viable when what is below suits it. A binary operator
needs an operand below, and a prefix operator needs that one is still expected there. -/
theorem viable_pending_iff {leaf : Token} {operator : Operator} {below : List Item} :
    Viable (.pending leaf operator :: below) ↔
      operator.arity = .binary ∧ Settled below ∨ operator.arity ≠ .binary ∧ Awaiting below := by
  constructor
  · rintro (waits | ⟨_, _, single⟩)
    · cases waits with
      | between binary => exact .inl ⟨binary, _, _, rfl⟩
      | before unary waits => exact .inr ⟨unary, waits⟩
    · simp at single
  · rintro (⟨binary, _, _, rfl⟩ | ⟨unary, waits⟩)
    · exact .inl (.between binary)
    · exact .inl (.before unary waits)

/-- An operand settles a stack that waits for one, without a report. By induction over the operators
that wait for it. -/
theorem pushOperand_settles {stack : List Item} (waits : Awaiting stack) (tree : Tree)
    (spine : Nat) :
    (expressions.pushOperand stack tree spine).diagnostics = [] ∧
      Settled (expressions.pushOperand stack tree spine).value := by
  induction waits generalizing tree spine with
  | nothing => exact ⟨rfl, tree, spine, rfl⟩
  | between binary =>
    rw [pushOperand.eq_def]
    simp [binary, Settled]
  | before unary waits inductionHypothesis =>
    rw [pushOperand.eq_def]
    simp only [unary, if_false]
    exact inductionHypothesis _ _

/-- An operand that leaves a viable stack without a report was waited for. By induction over the
operators that take it: the only stack that reports it is one with no operand where a binary
operator needs one. -/
theorem awaiting_of_pushOperand {stack : List Item} {tree : Tree} {spine : Nat}
    (silent : (expressions.pushOperand stack tree spine).diagnostics = [])
    (viable : Viable (expressions.pushOperand stack tree spine).value) : Awaiting stack := by
  fun_induction pushOperand expressions stack tree spine with
  | case1 leaf operator tree spine isBinary left leftSpine below grafted depth equal =>
    obtain rfl := viable_operand_iff.mp viable
    exact .between isBinary
  | case2 => simp at silent
  | case3 leaf operator below tree spine notBinary inductionHypothesis =>
    exact .before notBinary (inductionHypothesis silent viable)
  | case4 =>
    obtain rfl := viable_operand_iff.mp viable
    exact .nothing

/-- An operator that can stand before an operand waits on a stack that waits itself. -/
theorem pushOperator_awaits {stack : List Item} (waits : Awaiting stack) {token : Token}
    (named : expressions.Names [.unaryRight, .unaryBoth] token) :
    (expressions.pushOperator stack token (expressions.declared token)).diagnostics = [] ∧
      Awaiting (expressions.pushOperator stack token (expressions.declared token)).value := by
  have unary : (expressions.declared token).arity ≠ .binary := by
    intro isBinary
    simpa [isBinary] using (declared_of_names named).2
  rw [pushOperator_before named stack waits.expectsOperand]
  exact ⟨rfl, .before unary waits⟩

/-- An operator that can stand behind an operand leaves a settled stack settled. It is grafted on
the operand, and the result is again the only one. -/
theorem pushOperator_stays_settled {stack : List Item} (settled : Settled stack) {token : Token}
    (named : expressions.Names [.unaryLeft, .unaryBoth] token) :
    (expressions.pushOperator stack token (expressions.declared token)).diagnostics = [] ∧
      Settled (expressions.pushOperator stack token (expressions.declared token)).value := by
  obtain ⟨tree, spine, rfl⟩ := settled
  have arity := (declared_of_names named).2
  simp only [List.mem_cons, List.not_mem_nil, or_false] at arity
  rcases arity with isLeft | isBoth
  · simp [pushOperator, isLeft, Settled]
  · simp [pushOperator, isBoth, Settled]

/-- A binary operator waits on a settled stack. The operand that it found stays below it. -/
theorem pushOperator_awaits_right {stack : List Item} (settled : Settled stack) {token : Token}
    (named : expressions.Names [.binary] token) :
    (expressions.pushOperator stack token (expressions.declared token)).diagnostics = [] ∧
      Awaiting (expressions.pushOperator stack token (expressions.declared token)).value := by
  obtain ⟨tree, spine, rfl⟩ := settled
  have isBinary := List.mem_singleton.mp (declared_of_names named).2
  have pushed : expressions.pushOperator [.operand tree spine] token
      (expressions.declared token) =
        { value := [.pending token (expressions.declared token), .operand tree spine] } := by
    simp [pushOperator, isBinary]
  rw [pushed]
  exact ⟨rfl, .between isBinary⟩

/-- An operator that leaves a viable stack without a report stood at its place. What decides is what
is on top of the stack, so the cases are those by which the operator is put there. -/
theorem placed_of_pushOperator {stack : List Item} {token : Token} {operator : Operator}
    (silent : (expressions.pushOperator stack token operator).diagnostics = [])
    (viable : Viable (expressions.pushOperator stack token operator).value) :
    Awaiting stack ∧ operator.arity ∈ [Arity.unaryRight, .unaryBoth] ∨
      Settled stack ∧ operator.arity ∈ [Arity.unaryLeft, .unaryBoth, .binary] := by
  have waiting (unary : operator.arity ≠ .binary)
      (viable : Viable (.pending token operator :: stack)) : Awaiting stack := by
    simpa [viable_pending_iff, unary] using viable
  revert silent viable
  unfold pushOperator
  split
  · rename_i isBinary
    intro _ viable
    exact .inr ⟨by simpa [viable_pending_iff, isBinary] using viable, by simp [isBinary]⟩
  · rename_i isRight
    intro _ viable
    exact .inl ⟨waiting (by simp [isRight]) viable, by simp [isRight]⟩
  · rename_i tree spine below notBinary notRight
    intro _ viable
    obtain rfl := viable_operand_iff.mp viable
    refine .inr ⟨⟨tree, spine, rfl⟩, ?_⟩
    cases arity : operator.arity <;> simp_all
  · rename_i isBoth _
    intro _ viable
    exact .inl ⟨waiting (by simp [isBoth]) viable, by simp [isBoth]⟩
  · simp

/-- No part of a run makes a stack viable that was not. An operator has to stand at its place, and
an operand has to be waited for. -/
theorem viable_of_push {stack : List Item} {part : Part}
    (silent : (expressions.push stack part).diagnostics = [])
    (viable : Viable (expressions.push stack part).value) : Viable stack := by
  cases part with
  | operator leaf operator =>
    rcases placed_of_pushOperator silent viable with ⟨waits, _⟩ | ⟨settled, _⟩
    · exact .inl waits
    · exact .inr settled
  | operand tree => exact .inl (awaiting_of_pushOperand silent viable)
  | nothing => exact viable

/-! ## Runs of leaves -/

/-- The run of leaves is accepted from the stack: every leaf has a place in it, no
operator is reported, and a single operand is left. -/
def Accepted (expressions : Expressions) (stack : List Item) (run : List Token) : Prop :=
  (∀ token ∈ run, expressions.classify token ≠ .other) ∧
    (expressions.pushAll stack (run.map expressions.leafPart)).diagnostics = [] ∧
    Settled (expressions.pushAll stack (run.map expressions.leafPart)).value

/-- A run is accepted when its first leaf is and the others are from the stack that it
leaves. -/
theorem accepted_cons_iff {stack : List Item} {token : Token} {rest : List Token} :
    expressions.Accepted stack (token :: rest) ↔
      expressions.classify token ≠ .other ∧
        (expressions.push stack (expressions.leafPart token)).diagnostics = [] ∧
        expressions.Accepted (expressions.push stack (expressions.leafPart token)).value rest := by
  simp only [Accepted, List.forall_mem_cons, List.map_cons, pushAll, List.append_eq_nil_iff]
  tauto

/-- A stack from which a run is accepted is viable. -/
theorem Accepted.viable {stack : List Item} {run : List Token}
    (accepted : expressions.Accepted stack run) : Viable stack := by
  induction run generalizing stack with
  | nil => exact .inr accepted.2.2
  | cons token rest inductionHypothesis =>
    obtain ⟨_, silent, later⟩ := accepted_cons_iff.mp accepted
    exact viable_of_push silent (inductionHypothesis later)

/-- What a leaf is in a run is said by its operator or, without one, by its class. The class is
looked at only when no operator is declared for the text. -/
theorem classify_eq (token : Token) :
    expressions.classify token = match expressions.operator? token.value with
      | some operator => .operator operator
      | none =>
        if expressions.classOf token = .symbol then .symbol
        else if (expressions.classOf token).isLiteral then .literal else .other := by
  unfold classify operator? classOf
  cases expressions.operators.find? token.value with
  | some operator => rfl
  | none => cases token.tag <;> simp

/-- The leaves that name a value are those that count as one in a run. Both ask for a token without
an operator whose class is that of a literal or a symbol. -/
theorem namesValue_iff {token : Token} :
    expressions.NamesValue token ↔
      expressions.classify token = .literal ∨ expressions.classify token = .symbol := by
  rw [NamesValue, classify_eq]
  cases expressions.operator? token.value with
  | some operator => simp
  | none =>
    by_cases isSymbol : expressions.classOf token = .symbol
    · simp [isSymbol]
    · by_cases isLiteral : (expressions.classOf token).isLiteral <;> simp [isSymbol, isLiteral]

/-- The part of a leaf that names a value. -/
theorem leafPart_of_namesValue {token : Token} (value : expressions.NamesValue token) :
    expressions.leafPart token = .operand (.leaf token) ∧ expressions.classify token ≠ .other := by
  rcases namesValue_iff.mp value with kind | kind <;> simp [leafPart, kind]

/-- A leaf that names an operator is not out of place. -/
theorem classify_of_names {arities : List Arity} {token : Token}
    (named : expressions.Names arities token) : expressions.classify token ≠ .other := by
  simp [classify_eq_operator_iff.mpr (declared_of_names named).1]

/-- A run that can follow is accepted.

Proof: the induction follows the run; each token leads from a stack of one kind to a
stack of the kind that the rest of the run requires. -/
theorem accepted_of_follows (run : List Token) (stack : List Item) :
    (Awaiting stack → expressions.Opens run → expressions.Accepted stack run) ∧
      (Settled stack → expressions.Continues run → expressions.Accepted stack run) := by
  induction run generalizing stack with
  | nil => exact ⟨fun _ opens => by simp [Opens] at opens, fun settled _ => ⟨by simp, rfl, settled⟩⟩
  | cons token rest inductionHypothesis =>
    constructor
    · intro waits opens
      rw [Opens] at opens
      rcases opens with ⟨named, opens⟩ | ⟨value, continues⟩
      · obtain ⟨silent, still⟩ := pushOperator_awaits waits named
        rw [accepted_cons_iff, leafPart_of_names named]
        exact ⟨classify_of_names named, silent, (inductionHypothesis _).1 still opens⟩
      · obtain ⟨part, known⟩ := leafPart_of_namesValue value
        obtain ⟨silent, settled⟩ := pushOperand_settles waits (.leaf token) 0
        rw [accepted_cons_iff, part]
        exact ⟨known, silent, (inductionHypothesis _).2 settled continues⟩
    · intro settled continues
      rw [Continues] at continues
      rcases continues with ⟨named, continues⟩ | ⟨named, opens⟩
      · obtain ⟨silent, still⟩ := pushOperator_stays_settled settled named
        rw [accepted_cons_iff, leafPart_of_names named]
        exact ⟨classify_of_names named, silent, (inductionHypothesis _).2 still continues⟩
      · obtain ⟨silent, waits⟩ := pushOperator_awaits_right settled named
        rw [accepted_cons_iff, leafPart_of_names named]
        exact ⟨classify_of_names named, silent, (inductionHypothesis _).1 waits opens⟩

/-- A run that is accepted can follow.

Proof: the induction follows the run. The stack behind the first token is viable,
because the rest of the run is accepted from it, so the token stood at its place. -/
theorem follows_of_accepted (run : List Token) (stack : List Item)
    (accepted : expressions.Accepted stack run) :
    (Awaiting stack → expressions.Opens run) ∧ (Settled stack → expressions.Continues run) := by
  have exclusive {stack : List Item} (waits : Awaiting stack) (settled : Settled stack) : False :=
    settled.elim fun _ found => found.elim fun _ single => waits.expectsOperand _ _ _ single
  induction run generalizing stack with
  | nil =>
    exact ⟨fun waits => (exclusive waits accepted.2.2).elim, fun _ => by simp [Continues]⟩
  | cons token rest inductionHypothesis =>
    obtain ⟨known, silent, later⟩ := accepted_cons_iff.mp accepted
    have follows := inductionHypothesis _ later
    rw [Opens, Continues]
    by_cases value : expressions.NamesValue token
    · rw [(leafPart_of_namesValue value).1] at silent later follows
      have waits := awaiting_of_pushOperand silent later.viable
      have continues := follows.2 (pushOperand_settles waits _ _).2
      exact ⟨fun _ => .inr ⟨value, continues⟩, fun settled => (exclusive waits settled).elim⟩
    · obtain ⟨operator, kind⟩ : ∃ operator, expressions.classify token = .operator operator := by
        rw [namesValue_iff] at value
        cases kind : expressions.classify token <;> simp_all
      have found := classify_eq_operator_iff.mp kind
      have named (arities : List Arity) (member : operator.arity ∈ arities) :
          expressions.Names arities token := ⟨operator, found, member⟩
      rw [leafPart_of_names (named _ (List.mem_singleton_self _))] at silent later follows
      have placed := placed_of_pushOperator silent later.viable
      rw [declared_eq found] at placed
      rcases placed with ⟨waits, arity⟩ | ⟨settled, arity⟩
      · have opens := follows.1 (pushOperator_awaits waits (named _ arity)).2
        exact ⟨fun _ => .inl ⟨named _ arity, opens⟩, fun settled => (exclusive waits settled).elim⟩
      · refine ⟨fun waits => (exclusive waits settled).elim, fun _ => ?_⟩
        by_cases isBinary : operator.arity = .binary
        · have between := named [.binary] (by simp [isBinary])
          exact .inr ⟨between, follows.1 (pushOperator_awaits_right settled between).2⟩
        · have behind := named [.unaryLeft, .unaryBoth] (by simp_all)
          exact .inl ⟨behind, follows.2 (pushOperator_stays_settled settled behind).2⟩

/-- A run of leaves is worked off without a report exactly when it is empty or accepted
from the empty stack. -/
theorem assemble_leaves_silent_iff (run : List Token) :
    (expressions.assemble none (run.map expressions.leafStep)).diagnostics = [] ↔
      run = [] ∨ expressions.Accepted [] run := by
  have about : (∀ step ∈ run.map expressions.leafStep, step.diagnostics = []) ↔
      ∀ token ∈ run, expressions.classify token ≠ .other := by
    simp [leafStep]
  have parts : (run.map expressions.leafStep).map (·.part) = run.map expressions.leafPart := by
    simp [leafStep]
  rw [assemble_silent_iff, about, parts]
  constructor
  · rintro ⟨known, silent, empty | settled⟩
    · have leaves := expressions.pushAll_leaves [] _ silent
      rw [List.flatMap_map, flatMap_leaves_leafPart known, empty] at leaves
      exact .inl leaves.symm
    · exact .inr ⟨known, silent, settled⟩
  · rintro (rfl | ⟨known, silent, settled⟩)
    · simp [pushAll]
    · exact ⟨known, silent, .inr settled⟩

/-- A run of leaves is accepted exactly when it is empty or reads as an expression:
values with unary operators before and behind them, and binary operators between them.
The empty run gives the empty tree, and every other run that is accepted gives a tree
that is not empty. -/
theorem resolve_accepts_iff (expressions : Expressions) (tree : Tree) (run : List Token)
    (flat : runOf tree = run.map .leaf) :
    ((expressions.resolve tree).diagnostics = [] ↔ run = [] ∨ run ∈ expressions.expressionRun) ∧
      (run = [] → (expressions.resolve tree).value = .empty) ∧
      (run ≠ [] → (expressions.resolve tree).diagnostics = [] →
        (expressions.resolve tree).value ≠ .empty) := by
  rw [resolve_eq, flat, steps_leaves, assemble_leaves_silent_iff, ← openingRun_eq_expressionRun]
  refine ⟨or_congr Iff.rfl ⟨fun accepted => ?_, fun opens => ?_⟩, ?_, ?_⟩
  · exact (follows_of_accepted run [] accepted).1 .nothing
  · exact (accepted_of_follows run []).1 .nothing opens
  · rintro rfl
    rfl
  · intro nonempty accepted empty
    have silent := (assemble_leaves_silent_iff run).mpr accepted
    have leaves := expressions.assemble_leaves none _ silent
    have known := (accepted.resolve_left nonempty).1
    rw [empty, List.flatMap_map] at leaves
    exact nonempty (flatMap_leaves_leafPart known ▸ leaves).symm

/-- A run with operators on all sides, among them a mark before and behind one operand,
reads as an expression. -/
theorem negatedSum_accepted :
    (arithmetic.resolve (.branch "line" (negatedSum.map .leaf))).diagnostics = [] ∧
      negatedSum ∈ arithmetic.expressionRun ∧
      (arithmetic.resolve (.branch "line" (negatedSum.map .leaf))).value ≠ .empty := by
  have accepted :
      (arithmetic.resolve (.branch "line" (negatedSum.map .leaf))).diagnostics = [] := by
    decide +kernel
  have nonempty : negatedSum ≠ [] := by decide
  obtain ⟨reads, _, filled⟩ :=
    arithmetic.resolve_accepts_iff (.branch "line" (negatedSum.map .leaf)) negatedSum rfl
  exact ⟨accepted, (reads.mp accepted).resolve_left nonempty, filled nonempty accepted⟩

end Parlance.Expressions
