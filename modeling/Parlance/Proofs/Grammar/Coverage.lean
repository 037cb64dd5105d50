import Parlance.Proofs.Grammar.Described
import Parlance.Proofs.Grammar.Regions
import Parlance.Proofs.Nesting.Elements

/-!
# Which part of a text is read as expressions

A document that names no regions leaves the choice to its root: the elements of the root
are regions, or the root itself where it has no elements. Then all that stands at the top
of the tree is read as expressions, and after a run every region there holds at most its
expression.

An element that is given but empty is none for the nesting, which hangs everything from the
root. For the regions it is a name like any other, and no branch at the top has it. This is
the only way in which the top of a tree stays as it was built.
-/

namespace Parlance.Grammar

/-- All that stands at the top is read as expressions: each element of the root, or the root
itself without an element level, holds at most one child. -/
def Covers (grammar : Grammar) (tree : Tree) : Prop :=
  match grammar.nesting.root.element with
  | some element => ∀ child ∈ tree.children, child.isNamed element ∧ child.children.length ≤ 1
  | none => tree.children.length ≤ 1

/-- The tree with each element of the root, or the root itself without an element level,
read as an expression. -/
def resolvedTop (expressions : Expressions) (root : Bound) (tree : Tree) : Tree :=
  match root.element with
  | some element => .branch root.name
      (tree.children.map fun child => regionNode element (expressions.resolve child).value)
  | none => regionNode root.name (expressions.resolve tree).value

/-- A region that has been resolved has at most one child: an empty expression leaves none. -/
theorem regionNode_children_le (name : String) (expression : Tree) :
    (regionNode name expression).children.length ≤ 1 := by
  unfold regionNode
  split <;> simp [Tree.children]

/-- Where the top is read as expressions, it is covered. -/
theorem covers_resolvedTop (grammar : Grammar) (expressions : Expressions) (tree : Tree) :
    grammar.Covers (resolvedTop expressions grammar.nesting.root tree) := by
  unfold Covers resolvedTop
  cases grammar.nesting.root.element with
  | none => exact regionNode_children_le _ _
  | some element =>
    intro child member
    obtain ⟨built, _, rfl⟩ := List.mem_map.mp member
    exact ⟨by simp [regionNode, Tree.isNamed], regionNode_children_le _ _⟩

/-! ## One region -/

variable (expressions : Expressions)

/-- A root that is no region gets the regions of its children resolved. -/
theorem resolved_outside {name region : String} (apart : region ≠ name) (children : List Tree) :
    resolved expressions [region] (.branch name children) =
      .branch name (children.map (resolved expressions [region])) := by
  have outside : [region].contains name = false := by simpa using apart.symm
  rw [resolved, outside, resolvedAll_eq_map]
  rfl

/-- A branch that is a region is read as an expression. -/
theorem resolved_region {region : String} {tree : Tree} (named : tree.isNamed region) :
    resolved expressions [region] tree = regionNode region (expressions.resolve tree).value := by
  cases tree with
  | leaf token => simp [Tree.isNamed] at named
  | branch held contents =>
    obtain rfl : held = region := by simpa [Tree.isNamed] using named
    simp [resolved]

/-- Where the region is the element of the root, or the root itself without an element level,
the whole top is read as expressions. -/
theorem resolved_top (root : Bound) (apart : root.element ≠ some root.name) {children : List Tree}
    (named : ∀ element, root.element = some element → ∀ child ∈ children, child.isNamed element) :
    resolved expressions [root.element.getD root.name] (.branch root.name children) =
      resolvedTop expressions root (.branch root.name children) := by
  unfold resolvedTop
  cases element : root.element with
  | none => exact resolved_region expressions (by simp [Tree.isNamed])
  | some region =>
    have elsewhere : region ≠ root.name := by
      rintro rfl
      exact apart element
    rw [Option.getD_some, resolved_outside expressions elsewhere]
    simp only [Tree.children]
    congr 1
    exact List.map_congr_left fun child member =>
      resolved_region expressions (named region element child member)

/-! ## Runs -/

/-- An element that is given and not empty is the one that the nesting has. -/
theorem nonempty_getD {element : Option String} (filled : element ≠ some "") :
    nonempty (element.getD "") = element := by
  cases element with
  | none => rfl
  | some text =>
    have held : text ≠ "" := by
      rintro rfl
      exact filled rfl
    simp [nonempty, held]

/-- Where the nesting is free of errors, a run resolves the regions of the tree that was
built. -/
theorem run_tree_of_clean {grammar : Grammar} {expressions : Expressions}
    (resolves : grammar.expressions = some expressions) {text file : String}
    (clean : ∀ diagnostic ∈ (grammar.run text file).built.diagnostics, ¬ diagnostic.isError) :
    (grammar.run text file).tree =
      resolved expressions grammar.regions (grammar.run text file).built.value := by
  have noErrors : ¬ (grammar.run text file).built.diagnostics.any (·.isError) := by
    intro some
    obtain ⟨diagnostic, member, isError⟩ := List.any_eq_true.mp some
    exact clean diagnostic member isError
  have resolution : (grammar.run text file).resolution =
      some (grammar.resolveRegions (grammar.run text file).built.value) := if_neg noErrors
  rw [Run.tree, resolution, resolveRegions_eq resolves]

/-- A document that asks for expressions and names no regions covers the top of every text
whose nesting is free of errors, as long as it does not give an empty element: then the
elements of the root, or the root itself without an element level, hold their expressions.
With an empty element the top is covered only where there was at most one child to begin
with. -/
theorem run_covers_iff (spec : Spec) (grammar : Grammar) (expression : ExpressionSpec)
    (described : ofSpec spec = .ok grammar) (asked : spec.expression = some expression)
    (unnamed : expression.regions = []) (apart : spec.root.element ≠ some spec.root.name)
    (text file : String)
    (clean : ∀ diagnostic ∈ (grammar.run text file).built.diagnostics, ¬ diagnostic.isError) :
    (spec.root.element ≠ some "" → ∃ expressions, grammar.expressions = some expressions ∧
        (grammar.run text file).tree =
          resolvedTop expressions grammar.nesting.root (grammar.run text file).built.value) ∧
      (grammar.Covers (grammar.run text file).tree ↔
        spec.root.element ≠ some "" ∨
          (grammar.run text file).built.value.children.length ≤ 1) := by
  obtain ⟨expressions, resolves, regions⟩ := ofSpec_expressions described asked
  obtain ⟨children, built, elements⟩ := grammar.nesting.build_rooted (grammar.lex text file)
  have value : (grammar.run text file).built.value = .branch grammar.nesting.root.name children :=
    built
  have root := ofSpec_root described
  have name : grammar.nesting.root.name = spec.root.name := by rw [root]
  have region : grammar.regions = [spec.root.element.getD spec.root.name] := by
    simp [regions, regionsOf, unnamed]
  have tree := run_tree_of_clean resolves clean
  rw [value, region, ← name] at tree
  by_cases hollow : spec.root.element = some ""
  · -- The root has no elements, and the only region is a name that no root has.
    have level : grammar.nesting.root.element = none := by simp [root, hollow, nonempty]
    have elsewhere : "" ≠ grammar.nesting.root.name := by
      rw [name]
      exact fun same => apart (by rw [hollow, ← same])
    rw [hollow, Option.getD_some, resolved_outside expressions elsewhere] at tree
    refine ⟨fun given => absurd hollow given, ?_⟩
    simp [Covers, level, tree, value, hollow, Tree.children]
  · have level : grammar.nesting.root.element = spec.root.element := by
      rw [root]
      exact nonempty_getD hollow
    have distinct : grammar.nesting.root.element ≠ some grammar.nesting.root.name := by
      rwa [level, name]
    rw [← level, resolved_top expressions grammar.nesting.root distinct elements, ← value] at tree
    refine ⟨fun _ => ⟨expressions, resolves, tree⟩, ?_⟩
    rw [tree]
    exact iff_of_true (grammar.covers_resolvedTop expressions _) (.inl hollow)

/-- Sums without parentheses, with an element that is given but empty. -/
def hollowSums : Spec where
  rules := [{ start := " ", filtered := true }, { start := "+" }]
  root := { name := "program", element := some "" }
  expression := some { operators := [{ operator := "+", arity := .binary }] }

/-- With an empty element a sum stays as it was built, a root with three leaves. That it has three
children is computed, and the general criterion for coverage does the rest. -/
theorem hollowSums_uncovered :
    ∃ grammar, ofSpec hollowSums = .ok grammar ∧
      (grammar.run "1 + 2" "sums").built.diagnostics = [] ∧
      (grammar.run "1 + 2" "sums").built.value.children.length = 3 ∧
      ¬ grammar.Covers (grammar.run "1 + 2" "sums").tree := by
  have built : (match ofSpec hollowSums with
      | .ok grammar =>
        ((grammar.run "1 + 2" "sums").built.diagnostics,
          (grammar.run "1 + 2" "sums").built.value.children.length)
      | .error _ => ([], 0)) = ([], 3) := by
    decide +kernel
  cases described : ofSpec hollowSums with
  | error _ => simp [described] at built
  | ok grammar =>
    rw [described] at built
    obtain ⟨silent, three⟩ := Prod.mk.inj built
    refine ⟨grammar, rfl, silent, three, ?_⟩
    have covers := (run_covers_iff hollowSums grammar _ described rfl rfl (by decide) "1 + 2"
      "sums" (by simp [silent])).2
    rw [covers, three]
    decide

end Parlance.Grammar
