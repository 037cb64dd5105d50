import Parlance.Grammar.Basic

/-!
# Regions by structure

Regions are found by a walk that keeps a list of tasks and of the trees made so far, so that
the depth of a tree does not matter. What it does is said by recursion: a leaf stays, a
region becomes a branch with its expression, and any other branch gets the same done to its
children. The expressions are found from left to right, and none inside a region.
-/

namespace Parlance.Grammar

mutual

/-- The tree with the expressions of its regions in their places. -/
def resolved (expressions : Expressions) (regions : List String) : Tree → Tree
  | .leaf token => .leaf token
  | .branch name children =>
    if regions.contains name then
      regionNode name (expressions.resolve (.branch name children)).value
    else .branch name (resolvedAll expressions regions children)

/-- Several trees with the expressions of their regions in their places. -/
def resolvedAll (expressions : Expressions) (regions : List String) : List Tree → List Tree
  | [] => []
  | tree :: trees => resolved expressions regions tree :: resolvedAll expressions regions trees

end

mutual

/-- The expressions of the regions of a tree, with what is reported about them. -/
def expressionsOf (expressions : Expressions) (regions : List String) :
    Tree → List (Reported Tree)
  | .leaf _ => []
  | .branch name children =>
    if regions.contains name then [expressions.resolve (.branch name children)]
    else expressionsOfAll expressions regions children

/-- The expressions of the regions of several trees. -/
def expressionsOfAll (expressions : Expressions) (regions : List String) :
    List Tree → List (Reported Tree)
  | [] => []
  | tree :: trees =>
    expressionsOf expressions regions tree ++ expressionsOfAll expressions regions trees

end

variable (expressions : Expressions) (regions : List String)

/-- Resolving several trees is resolving each of them, so that facts about lists apply. -/
theorem resolvedAll_eq_map (trees : List Tree) :
    resolvedAll expressions regions trees = trees.map (resolved expressions regions) := by
  induction trees with
  | nil => rfl
  | cons tree trees inductionHypothesis => rw [resolvedAll, inductionHypothesis, List.map_cons]

mutual

/-- Looking at a tree makes the tree with its regions resolved.

Proof: by recursion on the tree. The trees made of the children of a branch lie on top, the
last one first, when the branch is made of them. -/
theorem carryOut_visit (made : List Tree) (found : List (Reported Tree)) (tree : Tree)
    (rest : List Task) :
    carryOut expressions regions made found (.visit tree :: rest) =
      carryOut expressions regions (resolved expressions regions tree :: made)
        ((expressionsOf expressions regions tree).reverse ++ found) rest := by
  cases tree with
  | leaf token =>
    rw [carryOut]
    rfl
  | branch name children =>
    rw [carryOut, resolved, expressionsOf]
    split
    · rfl
    · have count : (resolvedAll expressions regions children).reverse.length =
          children.length := by
        simp [resolvedAll_eq_map]
      rw [carryOut_visits made found children, carryOut, ← count, List.take_left,
        List.drop_left, List.reverse_reverse]

/-- Looking at several trees makes these trees with their regions resolved. They are taken from the
work list one by one, and each adds its tree and its expressions to what was made before. -/
theorem carryOut_visits (made : List Tree) (found : List (Reported Tree)) (trees : List Tree)
    (rest : List Task) :
    carryOut expressions regions made found (Task.visits trees ++ rest) =
      carryOut expressions regions ((resolvedAll expressions regions trees).reverse ++ made)
        ((expressionsOfAll expressions regions trees).reverse ++ found) rest := by
  cases trees with
  | nil => rfl
  | cons tree trees =>
    rw [Task.visits, List.map_cons, List.cons_append, carryOut_visit made found tree]
    have others := carryOut_visits (resolved expressions regions tree :: made)
      ((expressionsOf expressions regions tree).reverse ++ found) trees rest
    rw [Task.visits] at others
    rw [others, resolvedAll, expressionsOfAll]
    simp

end

/-- The walk over the tasks does what the recursion says. -/
theorem resolveRegions_eq {grammar : Grammar} {expressions : Expressions}
    (described : grammar.expressions = some expressions) (tree : Tree) :
    grammar.resolveRegions tree =
      { tree := resolved expressions grammar.regions tree
        regions := expressionsOf expressions grammar.regions tree } := by
  simp only [resolveRegions, described, carryOut_visit, carryOut]
  simp

end Parlance.Grammar
