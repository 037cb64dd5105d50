import Parlance.Proofs.Expression.Exchange

/-!
# Groups and calls are complete operands

A group dissolves into nodes like those of the run around it, and a call is a node like
any other. Still no operator around them ever takes a part of them: the run is resolved
as if a literal stood in the place of the group or the call, and the tree of the group
or the call is then put in the place of this literal. The same is reported in both
cases. The tokens that diagnostics point at are not compared, since a diagnostic may
point at the last token of a group.
-/

namespace Parlance

namespace Tree

mutual

/-- The tree with another one in the place of the leaves of a token. -/
def replace (tree : Tree) (hole : Token) (filling : Tree) : Tree :=
  match tree with
  | .leaf token => if token = hole then filling else .leaf token
  | .branch name children => .branch name (replaceAll children hole filling)

/-- Several trees with another one in the place of the leaves of a token. -/
def replaceAll (trees : List Tree) (hole : Token) (filling : Tree) : List Tree :=
  match trees with
  | [] => []
  | tree :: rest => tree.replace hole filling :: replaceAll rest hole filling

end

/-- A filling is put into trees one tree after the other. -/
theorem replaceAll_eq_map (trees : List Tree) (hole : Token) (filling : Tree) :
    replaceAll trees hole filling = trees.map (·.replace hole filling) := by
  induction trees with
  | nil => rfl
  | cons tree trees inductionHypothesis => rw [replaceAll, inductionHypothesis, List.map_cons]

mutual

/-- A tree without the token stays as it is. -/
theorem replace_of_absent {hole : Token} (filling : Tree) {tree : Tree}
    (absent : hole ∉ tree.leaves) : tree.replace hole filling = tree := by
  cases tree with
  | leaf token =>
    have other : token ≠ hole := by simpa [leaves, eq_comm] using absent
    simp [replace, other]
  | branch name children => rw [replace, replaceAll_of_absent filling absent]

/-- Trees without the token stay as they are. -/
theorem replaceAll_of_absent {hole : Token} (filling : Tree) {trees : List Tree}
    (absent : hole ∉ leavesAll trees) : replaceAll trees hole filling = trees := by
  cases trees with
  | nil => rfl
  | cons tree trees =>
    obtain ⟨first, others⟩ := not_or.mp (mt List.mem_append.mpr absent)
    rw [replaceAll, replace_of_absent filling first, replaceAll_of_absent filling others]

end

end Tree

namespace Expressions

variable {expressions : Expressions}

/-- Putting a tree that is no operator in the place of a literal exchanges values. An operator is
never the token that is replaced, since that token is a literal. -/
theorem exchanges_replace {hole : Token} {filling : Tree}
    (literal : expressions.classify hole = .literal) (plain : expressions.Plain filling) :
    expressions.Exchanges (·.replace hole filling) where
  branch name children := by rw [Tree.replace, Tree.replaceAll_eq_map]
  operator leaf operator declared := by
    have other : leaf ≠ hole := by
      rintro rfl
      rw [classify_eq_operator_iff.mpr declared] at literal
      contradiction
    simp [Tree.replace, other]
  plain leaf undeclared := by
    rw [Tree.replace]
    split
    · exact plain
    · exact plain_leaf undeclared

/-! ## Runs in two parts -/

/-- No wrapper at the start of `rest` is the argument list of a call that begins in
`before`. -/
def Divides (expressions : Expressions) (before rest : List Tree) : Prop :=
  ∀ token, before.getLast? = some (.leaf token) → expressions.classify token = .symbol →
    ∀ elements others, rest ≠ .branch expressions.names.expression elements :: others

/-- A place that divides a run divides it without its first child as well. -/
theorem Divides.tail {first : Tree} {before rest : List Tree}
    (divides : expressions.Divides (first :: before) rest) : expressions.Divides before rest := by
  intro token last
  exact divides token (by rw [List.getLast?_cons, last, Option.getD_some])

/-- The steps of a run in two parts are those of each part.

Proof: the induction follows the first part. A symbol at its end is not followed by a
wrapper, so no call reaches over to the second part. -/
theorem steps_append (depth : Nat) (seen : Option Token) {before rest : List Tree}
    (divides : expressions.Divides before rest) :
    ∃ last, expressions.steps depth seen (before ++ rest) =
      expressions.steps depth seen before ++ expressions.steps depth last rest := by
  induction before using run_induction expressions generalizing seen with
  | nothing => exact ⟨seen, by simp [steps]⟩
  | leaf token others alone inductionHypothesis =>
    have stillAlone : expressions.classify token = .symbol → ∀ elements behind,
        others ++ rest ≠ .branch expressions.names.expression elements :: behind := by
      intro symbol elements behind
      cases others with
      | nil => exact divides token rfl symbol elements behind
      | cons tree trees =>
        intro equal
        obtain ⟨rfl, _⟩ := List.cons.inj equal
        exact alone symbol elements trees rfl
    obtain ⟨last, reached⟩ := inductionHypothesis (some token) divides.tail
    refine ⟨last, ?_⟩
    rw [List.cons_append, steps_leaf _ _ _ _ _ alone, steps_leaf _ _ _ _ _ stillAlone, reached,
      List.cons_append]
  | call callee elements others symbol _ inductionHypothesis =>
    obtain ⟨last, reached⟩ := inductionHypothesis (some callee) divides.tail.tail
    refine ⟨last, ?_⟩
    rw [List.cons_append, List.cons_append, steps_call _ _ _ _ symbol, steps_call _ _ _ _ symbol,
      reached, List.cons_append]
  | group elements others _ inductionHypothesis =>
    obtain ⟨last, reached⟩ := inductionHypothesis _ divides.tail
    refine ⟨last, ?_⟩
    rw [List.cons_append, steps_group, steps_group, reached, List.cons_append]
  | stray name elements others stray inductionHypothesis =>
    obtain ⟨last, reached⟩ := inductionHypothesis _ divides.tail
    refine ⟨last, ?_⟩
    rw [List.cons_append, steps_stray_eq _ _ _ stray, steps_stray_eq _ _ _ stray, reached,
      List.cons_append]

/-- Steps that differ at most in the tokens that diagnostics point at have the same
parts. -/
theorem parts_eq_of_alike {steps others : List Step}
    (alike : List.Forall₂ (Step.Matches id) steps others) :
    steps.map (·.part) = others.map (·.part) := by
  induction alike with
  | nil => rfl
  | cons same _ inductionHypothesis =>
    rw [List.map_cons, List.map_cons, inductionHypothesis, same.part, Part.exchange_id]

/-- Steps that are alike match under every exchange that changes none of their parts. -/
theorem matches_of_kept {fill : Tree → Tree} {steps others : List Step}
    (alike : List.Forall₂ (Step.Matches id) steps others)
    (kept : ∀ step ∈ others, step.part.exchange fill = step.part) :
    List.Forall₂ (Step.Matches fill) steps others := by
  induction alike with
  | nil => exact .nil
  | cons same _ inductionHypothesis =>
    obtain ⟨first, rest⟩ := List.forall_mem_cons.mp kept
    refine .cons ⟨?_, same.codes⟩ (inductionHypothesis rest)
    rw [first, same.part, Part.exchange_id]

/-- The parts of a run have no tokens but those of the run. The parts do not depend on the token
seen last, so the case without one is enough. -/
theorem mem_leavesAll_of_step {depth : Nat} {seen : Option Token} {run : List Tree} {step : Step}
    (member : step ∈ expressions.steps depth seen run) {token : Token}
    (inside : token ∈ step.part.leaves) : token ∈ Tree.leavesAll run := by
  have given := expressions.steps_given depth none run (fun _ => id) (by simp)
  have parts := parts_eq_of_alike (expressions.steps_alike depth seen none run)
  have among : step.part ∈ (expressions.steps depth seen run).map (·.part) :=
    List.mem_map_of_mem member
  rw [parts] at among
  obtain ⟨other, found, same⟩ := List.mem_map.mp among
  exact (given other found).tokens token (same ▸ inside)

/-- Where the token does not stand, putting a tree in its place changes no step. All tokens of a
step are tokens of the run. -/
theorem steps_matches_of_absent {hole : Token} (filling : Tree) {run : List Tree}
    (absent : hole ∉ Tree.leavesAll run) (depth : Nat) (seen lastSeen : Option Token) :
    List.Forall₂ (Step.Matches (·.replace hole filling)) (expressions.steps depth seen run)
      (expressions.steps depth lastSeen run) := by
  have kept : ∀ step ∈ expressions.steps depth lastSeen run,
      step.part.exchange (·.replace hole filling) = step.part := by
    intro step member
    have missing : hole ∉ step.part.leaves := mt (mem_leavesAll_of_step member) absent
    cases part : step.part with
    | operator leaf operator => rfl
    | operand tree =>
      rw [part] at missing
      rw [Part.exchange, Tree.replace_of_absent filling missing]
    | nothing => rfl
  exact matches_of_kept (expressions.steps_alike depth seen lastSeen run) kept

/-! ## Groups and calls -/

/-- The trees are read as one operand behind `before`: as a group, where no symbol stands
directly before the wrapper, or as the call of a symbol. -/
inductive ReadAsOne (expressions : Expressions) (before : List Tree) : List Tree → Prop where
  | group (elements : List Tree)
      (apart : ∀ token, before.getLast? = some (.leaf token) →
        expressions.classify token ≠ .symbol) :
      ReadAsOne expressions before [.branch expressions.names.expression elements]
  | call (callee : Token) (elements : List Tree)
      (symbol : expressions.classify callee = .symbol) :
      ReadAsOne expressions before
        [.leaf callee, .branch expressions.names.expression elements]

/-- What is read as one operand is not part of a call that begins before it. -/
theorem ReadAsOne.divides {before operand : List Tree}
    (whole : expressions.ReadAsOne before operand) (after : List Tree) :
    expressions.Divides before (operand ++ after) := by
  cases whole with
  | group elements apart => exact fun token last symbol => absurd symbol (apart token last)
  | call callee elements symbol => exact fun _ _ _ _ _ => by simp

/-- A step that puts the given tree on the stack as an operand. -/
def operandStep (result : Reported Tree) (seen : Option Token) : Step where
  part := .operand result.value
  seen := seen
  diagnostics := result.diagnostics

/-- What is read as one operand makes one step, whatever follows. -/
theorem ReadAsOne.steps_eq {before operand : List Tree}
    (whole : expressions.ReadAsOne before operand) (depth : Nat) (seen : Option Token) :
    ∃ result last, ∀ after, expressions.steps depth seen (operand ++ after) =
      operandStep result last :: expressions.steps depth last after := by
  cases whole with
  | group elements _ => exact ⟨_, _, fun after => expressions.steps_group depth seen elements after⟩
  | call callee elements symbol =>
    exact ⟨_, _, fun after => expressions.steps_call depth seen callee symbol elements after⟩

/-- A single operand is the tree of its run. -/
theorem assemble_operandStep (result : Reported Tree) (seen last : Option Token) :
    expressions.assemble seen [operandStep result last] = result := by
  simp [assemble, work, operandStep, pushOperand, finish]

/-- What is resolved by itself without a report makes a step with this tree anywhere in a
run. -/
theorem ReadAsOne.steps_of_silent {before operand : List Tree}
    (whole : expressions.ReadAsOne before operand) {name : String}
    (silent : (expressions.resolve (.branch name operand)).diagnostics = [])
    (seen : Option Token) :
    ∃ last, ∀ after, expressions.steps 0 seen (operand ++ after) =
      operandStep { value := (expressions.resolve (.branch name operand)).value } last ::
        expressions.steps 0 last after := by
  obtain ⟨result, last, reached⟩ := whole.steps_eq 0 seen
  obtain ⟨lone, loneLast, reachedAlone⟩ := whole.steps_eq 0 none
  have here := reached []
  have alone := reachedAlone []
  rw [List.append_nil, steps] at here alone
  have resolved : expressions.resolve (.branch name operand) = lone := by
    rw [resolve_eq, runOf, alone, assemble_operandStep]
  rw [resolved] at silent ⊢
  have alike := expressions.steps_alike 0 seen none operand
  rw [here, alone] at alike
  obtain ⟨same, _⟩ := List.forall₂_cons.mp alike
  have value : result.value = lone.value := by
    simpa [operandStep, Part.exchange] using same.part
  have quiet : result.diagnostics = [] := by
    simpa [operandStep, codes, silent] using same.codes
  refine ⟨last, fun after => ?_⟩
  rw [reached after, ← value]
  simp only [operandStep, quiet]

/-- The tree of a run is not a leaf that names an operator. -/
theorem resolve_plain (expressions : Expressions) (tree : Tree) :
    expressions.Plain (expressions.resolve tree).value := by
  rw [resolve_eq]
  exact expressions.assemble_plain (expressions.steps_fit 0 none (runOf tree)) none

/-- A group or a call that is resolved by itself without a report is a complete operand of
every run: the run is resolved as with a literal in its place, its tree stands where the
literal would, and the same is reported in the same order.

Proof: the two runs make the same steps but for the operand itself, whose steps match when
its tree takes the place of the literal. The steps behind it may have seen another token,
which changes only where diagnostics point. Runs whose steps match have matching results. -/
theorem resolve_operand_complete (expressions : Expressions) (name : String)
    (before operand after : List Tree) (whole : expressions.ReadAsOne before operand)
    (silent : (expressions.resolve (.branch name operand)).diagnostics = [])
    (hole : Token) (literal : expressions.classify hole = .literal)
    (elsewhere : hole ∉ Tree.leavesAll (before ++ after)) :
    let tree := (expressions.resolve (.branch name operand)).value
    let resolved := expressions.resolve (.branch name (before ++ operand ++ after))
    let outline := expressions.resolve (.branch name (before ++ .leaf hole :: after))
    resolved.value = outline.value.replace hole tree ∧
      codes resolved.diagnostics = codes outline.diagnostics := by
  intro tree resolved outline
  rw [Tree.leavesAll_append, List.mem_append, not_or] at elsewhere
  obtain ⟨notBefore, notAfter⟩ := elsewhere
  have holeDivides : expressions.Divides before (.leaf hole :: after) :=
    fun _ _ _ _ _ => by simp
  have noCallee : expressions.classify hole = .symbol → ∀ elements others,
      after ≠ .branch expressions.names.expression elements :: others := by
    simp [literal]
  obtain ⟨seen, divided⟩ := steps_append 0 none (whole.divides after)
  obtain ⟨last, stepped⟩ := whole.steps_of_silent silent seen
  obtain ⟨holeSeen, holeDivided⟩ := steps_append 0 none holeDivides
  have same : (operandStep { value := tree } last).Matches (·.replace hole tree)
      (expressions.leafStep hole) :=
    ⟨by simp [operandStep, leafStep, leafPart, literal, Part.exchange, Tree.replace],
      by simp [operandStep, leafStep, literal]⟩
  have alike : List.Forall₂ (Step.Matches (·.replace hole tree))
      (expressions.steps 0 none (before ++ operand ++ after))
      (expressions.steps 0 none (before ++ .leaf hole :: after)) := by
    rw [List.append_assoc, divided, stepped, holeDivided, steps_leaf _ _ _ _ _ noCallee]
    exact List.rel_append (steps_matches_of_absent _ notBefore 0 none none)
      (.cons same (steps_matches_of_absent _ notAfter 0 last (some hole)))
  exact (exchanges_replace literal (expressions.resolve_plain _)).assemble_matches alike
    (expressions.steps_fit 0 none _) none none

/-- The group `( - 1 + 2 * ! 3 ! )`. -/
def groupedSum : List Tree :=
  [.branch "expression" [.branch "argument" (negatedSum.map .leaf)]]

/-- In `4 * ( - 1 + 2 * ! 3 ! ) + 5` the product binds tighter than the negation inside the
group, and takes the group as a whole. -/
theorem groupedSum_complete :
    let before := [.leaf (.bare "4" .integerLiteral), .leaf (.bare "*" .deliminator)]
    let after := [.leaf (.bare "+" .deliminator), .leaf (.bare "5" .integerLiteral)]
    let hole := Token.bare "0" .integerLiteral
    let tree := (arithmetic.resolve (.branch "line" groupedSum)).value
    let resolved := arithmetic.resolve (.branch "line" (before ++ groupedSum ++ after))
    let outline := arithmetic.resolve (.branch "line" (before ++ .leaf hole :: after))
    outline.diagnostics = [] ∧ resolved.value = outline.value.replace hole tree ∧
      codes resolved.diagnostics = codes outline.diagnostics := by
  intro before after hole tree resolved outline
  have silent : (arithmetic.resolve (.branch "line" groupedSum)).diagnostics = [] := by
    decide +kernel
  have whole : arithmetic.ReadAsOne before groupedSum := by
    refine .group _ fun token last => ?_
    obtain rfl : Token.bare "*" .deliminator = token := by simpa [before] using last
    decide +kernel
  have complete := arithmetic.resolve_operand_complete "line" before groupedSum after whole silent
    hole (by decide +kernel) (by decide +kernel)
  exact ⟨by decide +kernel, complete⟩

end Expressions

end Parlance
