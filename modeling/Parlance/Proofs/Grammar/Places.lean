import Parlance.Proofs.Expression.Places
import Parlance.Proofs.Grammar.Regions
import Parlance.Proofs.Nesting.Places

/-!
# Layout does not matter

Two lists of tokens that read alike give trees that differ in places only, before and after
the expressions in their regions are resolved, and the same is reported in the same order.
Line breaks, blanks, files and offsets can change where a diagnostic points and nothing else,
also where the tokens are in error.
-/

namespace Parlance.Grammar

section Regions

variable (expressions : Expressions) (regions : List String)

/-- A region has the places of its expression and no others. -/
theorem regionNode_unplaced (name : String) (expression : Tree) :
    regionNode name expression.unplaced = (regionNode name expression).unplaced := by
  unfold regionNode
  rw [Tree.isEmpty_unplaced]
  split <;> simp

mutual

/-- The same regions are resolved wherever tokens stand. A region is told by its name, and its
expression can lose the places before or afterwards. -/
theorem resolved_unplaced (tree : Tree) :
    resolved expressions regions tree.unplaced = (resolved expressions regions tree).unplaced := by
  cases tree with
  | leaf token => rfl
  | branch name children =>
    have whole := expressions.resolve_unplaced (.branch name children)
    rw [Tree.unplaced] at whole ⊢
    rw [resolved, resolved, whole, resolvedAll_unplaced children]
    split
    · exact regionNode_unplaced name _
    · rfl

/-- The regions of several trees are resolved alike wherever their tokens stand. -/
theorem resolvedAll_unplaced (trees : List Tree) :
    resolvedAll expressions regions (Tree.unplacedAll trees) =
      Tree.unplacedAll (resolvedAll expressions regions trees) := by
  cases trees with
  | nil => rfl
  | cons tree trees =>
    rw [Tree.unplacedAll, resolvedAll, resolved_unplaced tree, resolvedAll_unplaced trees,
      resolvedAll, Tree.unplacedAll]

end

mutual

/-- The same expressions are found wherever tokens stand. What is reported about them is the same,
at the same tokens without places. -/
theorem expressionsOf_unplaced (tree : Tree) :
    expressionsOf expressions regions tree.unplaced =
      (expressionsOf expressions regions tree).map (·.unplaced Tree.unplaced) := by
  cases tree with
  | leaf token => rfl
  | branch name children =>
    have whole := expressions.resolve_unplaced (.branch name children)
    rw [Tree.unplaced] at whole ⊢
    rw [expressionsOf, expressionsOf, whole, expressionsOfAll_unplaced children]
    split <;> rfl

/-- In several trees, the same is reported about regions wherever their tokens stand, and at the
same tokens. -/
theorem expressionsOfAll_unplaced (trees : List Tree) :
    expressionsOfAll expressions regions (Tree.unplacedAll trees) =
      (expressionsOfAll expressions regions trees).map (·.unplaced Tree.unplaced) := by
  cases trees with
  | nil => rfl
  | cons tree trees =>
    rw [Tree.unplacedAll, expressionsOfAll, expressionsOf_unplaced tree,
      expressionsOfAll_unplaced trees, expressionsOfAll, List.map_append]

end

end Regions

/-- Moving the tokens of a tree moves those of the tree with its regions resolved, and what is
reported about these. -/
theorem resolveRegions_unplaced (grammar : Grammar) (tree : Tree) :
    (grammar.resolveRegions tree.unplaced).tree = (grammar.resolveRegions tree).tree.unplaced ∧
      (grammar.resolveRegions tree.unplaced).diagnostics =
        (grammar.resolveRegions tree).diagnostics.map Diagnostic.unplaced := by
  cases described : grammar.expressions with
  | none => simp [resolveRegions, described, Resolution.diagnostics]
  | some expressions =>
    simp only [resolveRegions_eq described, resolved_unplaced, expressionsOf_unplaced,
      Resolution.diagnostics]
    simp [List.flatMap_map, List.map_flatMap, Reported.unplaced]

/-- The tree of the tokens with its regions resolved, and all that is reported. -/
def treeOf (grammar : Grammar) (tokens : List Token) : Reported Tree where
  value := (grammar.resolveRegions (grammar.nesting.build tokens).value).tree
  diagnostics := (grammar.nesting.build tokens).diagnostics ++
    (grammar.resolveRegions (grammar.nesting.build tokens).value).diagnostics

/-- Without places, the tree of tokens is found from the tree that is built without places. -/
theorem treeOf_unplaced (grammar : Grammar) (tokens : List Token) :
    (grammar.treeOf tokens).unplaced Tree.unplaced =
      let built := (grammar.nesting.build tokens).unplaced Tree.unplaced
      { value := (grammar.resolveRegions built.value).tree
        diagnostics := built.diagnostics ++ (grammar.resolveRegions built.value).diagnostics } := by
  obtain ⟨tree, reported⟩ := grammar.resolveRegions_unplaced (grammar.nesting.build tokens).value
  simp [treeOf, Reported.unplaced, tree, reported]

/-- Tokens that read alike are understood alike: the trees that are built differ in the places
of their tokens only, and so do the trees with all regions resolved. What is reported agrees
one by one in code, severity, message and context. -/
theorem layout_independent (grammar : Grammar) (first second : List Token)
    (same : List.Forall₂ Token.ReadsAs first second) :
    (grammar.nesting.build first).SaysAs (grammar.nesting.build second) ∧
      (grammar.treeOf first).SaysAs (grammar.treeOf second) := by
  have built := grammar.nesting.build_unplaced_eq same
  constructor
  · exact Reported.saysAs_of_unplaced_eq built
  · apply Reported.saysAs_of_unplaced_eq
    rw [treeOf_unplaced, treeOf_unplaced, built]

/-- Sums on a line, with groups in parentheses and a name for the number one. -/
def namedSums : Grammar where
  lexer := {}
  nesting :=
    { root := { name := "line" }
      bounds := .ofList [("(",
        { name := "expression", start := "(", closing := ")", element := some "argument" })]
      definitions := .ofList [("one", .leaf (.bare "1" .integerLiteral))] }
  expressions := some { operators := .ofList [("+", ⟨.binary, 0⟩)] }
  regions := ["line"]

/-- A sum with an empty group for an operand, and another group that is left open. -/
def brokenSum (place : Nat → Position) (file : String) : List Token :=
  [⟨"one", .symbol, place 0, file⟩, ⟨"+", .deliminator, place 1, file⟩,
    ⟨"(", .deliminator, place 2, file⟩, ⟨")", .deliminator, place 3, file⟩,
    ⟨"(", .deliminator, place 4, file⟩]

/-- A broken sum on one line is reported like one with every token on a line of its own, in
another file. -/
theorem brokenSum_layout_independent :
    let wide := brokenSum (fun index => { column := 4 * index, offset := 4 * index }) "wide"
    let high := brokenSum (fun index => { line := index + 1, offset := 2 * index }) "high"
    (namedSums.treeOf wide).diagnostics.map (·.id) = ["FK1002", "FK2002", "FK2002", "FK2001"] ∧
      (namedSums.treeOf wide).diagnostics ≠ (namedSums.treeOf high).diagnostics ∧
      (namedSums.treeOf wide).SaysAs (namedSums.treeOf high) := by
  refine ⟨by decide +kernel, by decide +kernel, (layout_independent namedSums _ _ ?_).2⟩
  simp [brokenSum, Token.ReadsAs]

end Parlance.Grammar
