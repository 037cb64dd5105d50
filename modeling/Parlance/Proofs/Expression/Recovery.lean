import Parlance.Proofs.Expression.Grouping

/-!
# What becomes of the tokens of a garbled run

A run of leaves that is no expression is still worked off to its end. Tokens that fit nowhere
are removed on the way, and what is left goes on as if they had not been there. This file says
which tokens are removed and what is reported: a token that is neither an operator nor a value,
as soon as it is met; an operator behind its operand, when there is no operand; and a binary
operator without a left operand, but only when the next value comes. Each is reported once, at
its own place, and no other token is removed.

Since faults are found at different times, the reports are not in the order of the text; they
are compared as multisets. The tokens that are kept are in the order of the text all the time:
they are those of the stack, read from the bottom to the top.

At the end more than one value can be left, or an operator that still waits for its operand.
Then there is no tree, and one more report says which of the two it was.
-/

namespace Parlance.Expressions

/-- What is reported about a token that is removed from a run of leaves. It is absent for
tokens that are never removed: values, and operators that can stand before their operand. -/
def removal? (expressions : Expressions) (token : Token) : Option Diagnostic :=
  match expressions.classify token with
  | .operator operator =>
    if operator.arity = .binary ∨ operator.arity = .unaryLeft then
      some (Problem.missingLeftOperand.diagnose token)
    else none
  | .other => some (Problem.unexpectedToken.diagnose token)
  | .literal | .symbol => none

/-- The tokens of a run that are kept are in the order of the run, all others are removed, and
the reports are those about the removed tokens, one for each. -/
structure Accounts (expressions : Expressions) (run kept removed : List Token)
    (reports : List Diagnostic) : Prop where
  ordered : kept.Sublist run
  complete : (kept ++ removed).Perm run
  reported : (reports.map some).Perm (removed.map expressions.removal?)

namespace Accounts

variable {expressions : Expressions} {run before after kept fewer removed more : List Token}
  {reports later : List Diagnostic}

/-- A run of which nothing is lost accounts for itself, without reports. -/
theorem all (run : List Token) : expressions.Accounts run run [] [] :=
  ⟨.refl run, by simp, .nil⟩

/-- A removed token stands anywhere in the run, with one report about it. The order of the others is
kept, and the report is the one that belongs to the token. -/
theorem insert (accounts : expressions.Accounts (before ++ after) kept removed reports)
    {token : Token} {report : Diagnostic} (reported : expressions.removal? token = some report) :
    expressions.Accounts (before ++ token :: after) kept (token :: removed)
      (report :: reports) := by
  constructor
  · have skipped := (List.sublist_cons_self token after).append_left before
    exact accounts.ordered.trans skipped
  · calc kept ++ token :: removed
      _ |>.Perm (token :: (kept ++ removed)) := List.perm_middle
      _ |>.Perm (token :: (before ++ after)) := accounts.complete.cons token
      _ |>.Perm (before ++ token :: after) := List.perm_middle.symm
  · rw [List.map_cons, List.map_cons, reported]
    exact accounts.reported.cons (some report)

/-- The last token of a run is removed. -/
theorem last {token : Token} {report : Diagnostic} (kept : List Token)
    (reported : expressions.removal? token = some report) :
    expressions.Accounts (kept ++ [token]) kept [token] [report] := by
  have others : expressions.Accounts (kept ++ []) kept [] [] := by simpa using all kept
  exact others.insert reported

/-- What is kept of a run is worked off further, together with the tokens that follow. The tokens
that are removed later are put behind those removed before, and so are the reports about them. -/
theorem trans (accounts : expressions.Accounts run kept removed reports)
    (further : expressions.Accounts (kept ++ after) fewer more later) :
    expressions.Accounts (run ++ after) fewer (removed ++ more) (reports ++ later) := by
  constructor
  · exact further.ordered.trans (accounts.ordered.append_right after)
  · calc fewer ++ (removed ++ more)
      _ |>.Perm (fewer ++ (more ++ removed)) := List.perm_append_comm.append_left fewer
      _ |>.Perm (kept ++ after ++ removed) := by
        rw [← List.append_assoc]
        exact further.complete.append_right removed
      _ |>.Perm (kept ++ removed ++ after) := by
        rw [List.append_assoc, List.append_assoc]
        exact List.perm_append_comm.append_left kept
      _ |>.Perm (run ++ after) := accounts.complete.append_right after
  · rw [List.map_append, List.map_append]
    exact accounts.reported.append further.reported

end Accounts

/-! ## The stack of a garbled run -/

variable {expressions : Expressions}

/-- All entries of the stack are operands, each of which counts as one. -/
def Operands (expressions : Expressions) (stack : List Item) : Prop :=
  ∀ item ∈ stack, ∃ tree spine, item = .operand tree spine ∧ expressions.balance tree.leaves = 1

/-- Operands, and above them operators that wait for theirs. -/
inductive Layered (expressions : Expressions) : List Item → Prop where
  | operands {stack : List Item} (operands : expressions.Operands stack) : Layered expressions stack
  | pending {leaf : Token} {operator : Operator} {below : List Item}
    (kind : expressions.classify leaf = .operator operator)
    (others : Layered expressions below) : Layered expressions (.pending leaf operator :: below)

/-- Operands are counted by the tokens of the stack. -/
theorem Operands.balance_eq {stack : List Item} (operands : expressions.Operands stack) :
    expressions.balance (stackLeaves stack) = stack.length := by
  induction stack with
  | nil => rfl
  | cons item below inductionHypothesis =>
    obtain ⟨⟨tree, spine, rfl, one⟩, others⟩ := List.forall_mem_cons.mp operands
    rw [stackLeaves, balance_append, inductionHypothesis others, Item.leaves, one]
    simp

/-- Below an operator that waits the stack is again layered, and the token is classified as this
operator. -/
theorem Layered.waiting {leaf : Token} {operator : Operator} {below : List Item}
    (layered : expressions.Layered (.pending leaf operator :: below)) :
    expressions.classify leaf = .operator operator ∧ expressions.Layered below := by
  cases layered with
  | operands operands =>
    obtain ⟨_, _, impossible, _⟩ := operands _ List.mem_cons_self
    cases impossible
  | pending kind others => exact ⟨kind, others⟩

/-- Only operands are below an operand. -/
theorem Layered.operands_of_operand {tree : Tree} {spine : Nat} {below : List Item}
    (layered : expressions.Layered (.operand tree spine :: below)) :
    expressions.Operands (.operand tree spine :: below) := by
  cases layered with
  | operands operands => exact operands

/-- An operator that is no binary one does not change the count of operands. -/
theorem weight_of_classify {token : Token} {operator : Operator}
    (kind : expressions.classify token = .operator operator) :
    expressions.weight token = if operator.arity = .binary then -1 else 0 := by
  rw [weight, classify_eq_operator_iff.mp kind]

/-- An operand takes the operators that wait for it and removes the binary ones among them
that have no operand on their left.

Proof: the induction follows the waiting operators. Each is taken, as a prefix operator,
together with the operand below it, as a binary one, or it is removed from the middle of the
tokens that are left. -/
theorem pushOperand_recovers {stack : List Item} (layered : expressions.Layered stack)
    {tree : Tree} (one : expressions.balance tree.leaves = 1) (spine : Nat) :
    expressions.Operands (expressions.pushOperand stack tree spine).value ∧
      ∃ removed, expressions.Accounts (stackLeaves stack ++ tree.leaves)
        (stackLeaves (expressions.pushOperand stack tree spine).value) removed
        (expressions.pushOperand stack tree spine).diagnostics := by
  fun_induction pushOperand expressions stack tree spine with
  | case1 leaf operator tree spine isBinary left leftSpine below grafted depth equal =>
    obtain ⟨kind, others⟩ := layered.waiting
    obtain ⟨⟨_, _, same, leftOne⟩, deeper⟩ :=
      List.forall_mem_cons.mp others.operands_of_operand
    cases same
    have behind := expressions.graft_leaves operator.precedence
      (fun operand => .branch expressions.names.binary [operand, .leaf leaf, tree])
      (leaf :: tree.leaves) (fun _ => by simp [Tree.leaves, Tree.leavesAll]) leftSpine left
    rw [equal] at behind
    constructor
    · refine List.forall_mem_cons.mpr ⟨⟨grafted, _, rfl, ?_⟩, deeper⟩
      rw [behind, balance_append, balance, leftOne, one, weight_of_classify kind, if_pos isBinary]
      rfl
    · refine ⟨[], ?_⟩
      simpa [stackLeaves, Item.leaves, behind] using
        Accounts.all (stackLeaves below ++ (left.leaves ++ leaf :: tree.leaves))
  | case2 leaf operator below tree spine isBinary alone inductionHypothesis =>
    obtain ⟨kind, others⟩ := layered.waiting
    obtain ⟨operands, removed, accounts⟩ := inductionHypothesis others one
    have reported : expressions.removal? leaf =
        some (Problem.missingLeftOperand.diagnose leaf) := by
      simp [removal?, kind, isBinary]
    refine ⟨operands, leaf :: removed, ?_⟩
    simpa [stackLeaves, Item.leaves] using accounts.insert reported
  | case3 leaf operator below tree spine notBinary inductionHypothesis =>
    obtain ⟨kind, others⟩ := layered.waiting
    have stillOne : expressions.balance
        (Tree.branch expressions.names.unaryRight [.leaf leaf, tree]).leaves = 1 := by
      simpa [Tree.leaves, Tree.leavesAll, balance, weight_of_classify kind, notBinary] using one
    obtain ⟨operands, removed, accounts⟩ := inductionHypothesis others stillOne
    refine ⟨operands, removed, ?_⟩
    simpa [stackLeaves, Item.leaves, Tree.leaves, Tree.leavesAll] using accounts
  | case4 stack tree spine unpending =>
    cases layered with
    | operands operands =>
      constructor
      · exact List.forall_mem_cons.mpr ⟨⟨tree, spine, rfl, one⟩, operands⟩
      · exact ⟨[], .all _⟩
    | pending kind others => exact absurd rfl (unpending _ _ _)

/-- An operator waits on the stack, takes the operand before it, or is removed when it needs
one and there is none. -/
theorem pushOperator_recovers {stack : List Item} (layered : expressions.Layered stack)
    {leaf : Token} {operator : Operator}
    (kind : expressions.classify leaf = .operator operator) :
    expressions.Layered (expressions.pushOperator stack leaf operator).value ∧
      ∃ removed, expressions.Accounts (stackLeaves stack ++ [leaf])
        (stackLeaves (expressions.pushOperator stack leaf operator).value) removed
        (expressions.pushOperator stack leaf operator).diagnostics := by
  have waits : expressions.Layered (.pending leaf operator :: stack) := .pending kind layered
  unfold pushOperator
  split
  · exact ⟨waits, [], .all _⟩
  · exact ⟨waits, [], .all _⟩
  · rename_i tree spine below notBinary _
    obtain ⟨⟨_, _, same, one⟩, others⟩ := List.forall_mem_cons.mp layered.operands_of_operand
    cases same
    have behind := expressions.graft_leaves operator.precedence
      (fun operand => .branch expressions.names.unaryLeft [operand, .leaf leaf]) [leaf]
      (fun _ => by simp [Tree.leaves, Tree.leavesAll]) spine tree
    constructor
    · refine .operands (List.forall_mem_cons.mpr ⟨⟨_, _, rfl, ?_⟩, others⟩)
      rw [behind, balance_append, one, balance, balance, weight_of_classify kind,
        if_neg notBinary]
      rfl
    · refine ⟨[], ?_⟩
      simpa [stackLeaves, Item.leaves, behind] using
        Accounts.all (stackLeaves below ++ (tree.leaves ++ [leaf]))
  · exact ⟨waits, [], .all _⟩
  · rename_i arity _
    have reported : expressions.removal? leaf =
        some (Problem.missingLeftOperand.diagnose leaf) := by
      simp [removal?, kind, arity]
    exact ⟨layered, [leaf], .last _ reported⟩

/-- A leaf is put on the stack, or removed. Operators and operands are put on the stack as their
kind demands. What is neither is reported, and the stack stays as it is. -/
theorem leafStep_recovers {stack : List Item} (layered : expressions.Layered stack)
    (token : Token) :
    expressions.Layered (expressions.push stack (expressions.leafStep token).part).value ∧
      ∃ removed, expressions.Accounts (stackLeaves stack ++ [token])
        (stackLeaves (expressions.push stack (expressions.leafStep token).part).value) removed
        ((expressions.leafStep token).diagnostics ++
          (expressions.push stack (expressions.leafStep token).part).diagnostics) := by
  have value (notOperator : expressions.operator? token.value = none) :
      expressions.Layered (expressions.pushOperand stack (.leaf token) 0).value ∧
        ∃ removed, expressions.Accounts (stackLeaves stack ++ [token])
          (stackLeaves (expressions.pushOperand stack (.leaf token) 0).value) removed
          (expressions.pushOperand stack (.leaf token) 0).diagnostics := by
    have one : expressions.balance (Tree.leaf token).leaves = 1 := by
      simp [Tree.leaves, balance, weight, notOperator]
    obtain ⟨operands, accounts⟩ := pushOperand_recovers layered one 0
    exact ⟨.operands operands, accounts⟩
  have undeclared (notOperator : ∀ operator, expressions.classify token ≠ .operator operator) :
      expressions.operator? token.value = none := by
    rw [Option.eq_none_iff_forall_not_mem]
    intro operator found
    exact notOperator operator (classify_eq_operator_iff.mpr found)
  cases kind : expressions.classify token with
  | operator operator =>
    simpa [leafStep, leafPart, kind, push] using pushOperator_recovers layered kind
  | literal =>
    simpa [leafStep, leafPart, kind, push] using value (undeclared (by simp [kind]))
  | symbol =>
    simpa [leafStep, leafPart, kind, push] using value (undeclared (by simp [kind]))
  | other =>
    have reported : expressions.removal? token =
        some (Problem.unexpectedToken.diagnose token) := by
      simp [removal?, kind]
    refine ⟨by simpa [leafStep, leafPart, kind, push] using layered, [token], ?_⟩
    simpa [leafStep, leafPart, kind, push] using Accounts.last (stackLeaves stack) reported

/-- What holds of a run after some of its leaves: the stack keeps their tokens in order, and all
others have been removed and reported. -/
structure Recovering (expressions : Expressions) (run : List Token) (working : Working) :
    Prop where
  layered : expressions.Layered working.stack
  accounts : ∃ removed,
    expressions.Accounts run (stackLeaves working.stack) removed working.diagnostics

/-- One token more is accounted for after its step: it is in a tree on the stack, it waits there, or
it has been reported. -/
theorem Recovering.work {run : List Token} {working : Working}
    (recovering : expressions.Recovering run working) (token : Token) :
    expressions.Recovering (run ++ [token])
      (expressions.work working (expressions.leafStep token)) := by
  obtain ⟨layered, removed, accounts⟩ := recovering
  obtain ⟨stillLayered, more, further⟩ := leafStep_recovers layered token
  rw [work_eq, List.append_assoc]
  exact ⟨stillLayered, removed ++ more, accounts.trans further⟩

/-- After the steps of any tokens, all of them are accounted for. By induction over the tokens, with
one step of recovery for each. -/
theorem Recovering.foldl_work {run : List Token} {working : Working}
    (recovering : expressions.Recovering run working) (tokens : List Token) :
    expressions.Recovering (run ++ tokens)
      ((tokens.map expressions.leafStep).foldl expressions.work working) := by
  induction tokens generalizing run working with
  | nil => simpa using recovering
  | cons token tokens inductionHypothesis =>
    have continued := inductionHypothesis (recovering.work token)
    rw [List.append_assoc, List.singleton_append] at continued
    exact continued

/-! ## The end of a run -/

/-- The report about a run that has no tree because of what is left of it: an operator that
still waits, which is the last token kept, or more than one operand. -/
inductive Unfinished (expressions : Expressions) (kept : List Token) : Diagnostic → Prop where
  | pending {token : Token} {operator : Operator} (last : kept.getLast? = some token)
    (kind : expressions.classify token = .operator operator) :
    Unfinished expressions kept (Problem.operatorAsOperand.diagnose token)
  | several (token : Token) (several : 2 ≤ expressions.balance kept) :
    Unfinished expressions kept (Problem.unexpectedArgumentList.diagnose token)

/-- A run that was worked off gives its only operand, or nothing. A prefix operator on top has no
operand, and more than one operand means that an operator is missing between them. -/
theorem finish_recovers {stack : List Item} (layered : expressions.Layered stack)
    (seen : Option Token) :
    (finish stack seen).value.leaves = stackLeaves stack ∧ (finish stack seen).diagnostics = [] ∨
      (finish stack seen).value = .empty ∧ ∃ last, (finish stack seen).diagnostics = [last] ∧
        expressions.Unfinished (stackLeaves stack) last := by
  unfold finish
  split
  · exact .inl ⟨rfl, rfl⟩
  · exact .inl ⟨by simp [stackLeaves, Item.leaves], rfl⟩
  · refine .inr ⟨rfl, _, rfl, .pending ?_ layered.waiting.1⟩
    simp [stackLeaves, Item.leaves]
  · rename_i tree spine below notOnly
    refine .inr ⟨rfl, _, rfl, .several _ ?_⟩
    rw [layered.operands_of_operand.balance_eq]
    have more := List.length_pos_iff.mpr notOnly
    rw [List.length_cons]
    omega

/-- However garbled a run of leaves is, all of its tokens are accounted for. The leaves of a
tree that is not empty are the tokens that were kept, in the order of the run, and the reports
are exactly those about the tokens that were removed, one for each. Where there is no tree for
a run that is not empty, either all tokens were removed and reported in this way, or there is
one more report, the last one: an operator was still waiting, or more than one value was
left. -/
theorem resolve_recovers (expressions : Expressions) (tree : Tree) (run : List Token)
    (flat : runOf tree = run.map .leaf) :
    ((expressions.resolve tree).value ≠ .empty → ∃ removed,
        expressions.Accounts run (expressions.resolve tree).value.leaves removed
          (expressions.resolve tree).diagnostics) ∧
      ((expressions.resolve tree).value = .empty → run ≠ [] →
        expressions.Accounts run [] run (expressions.resolve tree).diagnostics ∨
          ∃ kept removed reports last,
            (expressions.resolve tree).diagnostics = reports ++ [last] ∧
              expressions.Accounts run kept removed reports ∧
              expressions.Unfinished kept last) := by
  rw [resolve_eq, flat, steps_leaves, assemble]
  have begun : expressions.Recovering [] { seen := none } :=
    ⟨.operands (by simp [Operands]), [], .all []⟩
  obtain ⟨layered, removed, accounts⟩ := begun.foldl_work run
  generalize (run.map expressions.leafStep).foldl expressions.work { seen := none } = worked
    at layered accounts ⊢
  rw [List.nil_append] at accounts
  dsimp only
  rcases finish_recovers layered worked.seen with ⟨leaves, silent⟩ | ⟨nothing, last, ended, why⟩
  · rw [silent, List.append_nil]
    refine ⟨fun _ => ⟨removed, leaves ▸ accounts⟩, fun empty _ => .inl ?_⟩
    -- The empty tree has no leaves, so nothing was kept.
    have none : stackLeaves worked.stack = [] := by
      rw [← leaves, empty]
      rfl
    rw [none] at accounts
    exact ⟨run.nil_sublist, .refl run,
      accounts.reported.trans (accounts.complete.map expressions.removal?)⟩
  · rw [ended]
    exact ⟨fun filled => absurd nothing filled, fun _ _ =>
      .inr ⟨_, removed, worked.diagnostics, last, rfl, accounts, why⟩⟩

/-- The run `+ ) 1 * + 2`. -/
def garbledProduct : List Token :=
  [.bare "+" .deliminator, .bare ")" .deliminator, .bare "1" .integerLiteral,
    .bare "*" .deliminator, .bare "+" .deliminator, .bare "2" .integerLiteral]

/-- The product is kept. Of the three tokens that are removed, the first is reported last but
one: that it has no left operand is noticed when the first value comes. -/
theorem garbledProduct_recovers :
    ∃ removed, arithmetic.Accounts garbledProduct
        (arithmetic.resolve (.branch "line" (garbledProduct.map .leaf))).value.leaves removed
        (arithmetic.resolve (.branch "line" (garbledProduct.map .leaf))).diagnostics ∧
      (arithmetic.resolve (.branch "line" (garbledProduct.map .leaf))).value.leaves.map
          (·.value) = ["1", "*", "2"] ∧
      (arithmetic.resolve (.branch "line" (garbledProduct.map .leaf))).diagnostics.map (·.id) =
        ["FK2004", "FK2003", "FK2003"] := by
  have filled :
      (arithmetic.resolve (.branch "line" (garbledProduct.map .leaf))).value ≠ .empty := by
    decide +kernel
  obtain ⟨removed, accounts⟩ := (arithmetic.resolve_recovers
    (.branch "line" (garbledProduct.map .leaf)) garbledProduct rfl).1 filled
  exact ⟨removed, accounts, by decide +kernel, by decide +kernel⟩

end Parlance.Expressions
