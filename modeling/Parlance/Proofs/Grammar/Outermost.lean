import Parlance.Proofs.Grammar.Regions

/-!
# The outermost regions

Regions are resolved from the outside in, and what is inside a region belongs to its expression.
So only the outermost regions of a tree are resolved, those that are reached from the top
without entering another region. This file finds them by their paths, the numbers of the
children on the way down. The order of the text is the lexicographic order of the paths, and
what is reported about the regions is reported in this order.

All nodes that are reached without entering a region keep their places. Those that are no
regions stay as they are, with as many children as before. Those that are regions keep their
names and hold their expressions, if there are any.
-/

namespace Parlance

/-- What a node is without its children: the token of a leaf, or the name of a branch. -/
def Tree.label : Tree → Token ⊕ String
  | .leaf token => .inl token
  | .branch name _ => .inr name

namespace Grammar

/-- Whether the tree is a region. -/
def isRegion (regions : List String) : Tree → Bool
  | .leaf _ => false
  | .branch name _ => regions.contains name

/-- Going down from a tree to the children with the given numbers leads to the node, and enters
no region on the way. -/
inductive Reached (regions : List String) : Tree → List Nat → Tree → Prop where
  | here (tree : Tree) : Reached regions tree [] tree
  | down {tree next node : Tree} {index : Nat} {path : List Nat}
    (outside : isRegion regions tree = false) (child : tree.children[index]? = some next)
    (deeper : Reached regions next path node) : Reached regions tree (index :: path) node

mutual

/-- The outermost regions of a tree with their paths, in the order of the text. -/
def sites (regions : List String) : Tree → List (List Nat × Tree)
  | .leaf _ => []
  | .branch name children =>
    if regions.contains name then [([], .branch name children)]
    else sitesFrom regions 0 children

/-- The outermost regions of several trees, the first of which has the given number. -/
def sitesFrom (regions : List String) (index : Nat) : List Tree → List (List Nat × Tree)
  | [] => []
  | tree :: trees =>
    (sites regions tree).map (fun site => (index :: site.1, site.2)) ++
      sitesFrom regions (index + 1) trees

end

variable {regions : List String}

/-! ## Finding regions -/

/-- A region of several trees is one of the tree that its path begins with. The number with which
the path begins tells which tree that is, counted from the number of the first. -/
theorem mem_sitesFrom_iff {first : Nat} {trees : List Tree} {path : List Nat} {node : Tree} :
    (path, node) ∈ sitesFrom regions first trees ↔
      ∃ index rest tree, path = (first + index) :: rest ∧ trees[index]? = some tree ∧
        (rest, node) ∈ sites regions tree := by
  induction trees generalizing first with
  | nil => simp [sitesFrom]
  | cons tree trees inductionHypothesis =>
    rw [sitesFrom, List.mem_append, inductionHypothesis]
    constructor
    · rintro (inside | ⟨index, rest, next, rfl, child, member⟩)
      · obtain ⟨⟨rest, region⟩, member, same⟩ := List.mem_map.mp inside
        cases same
        exact ⟨0, rest, tree, rfl, rfl, member⟩
      · exact ⟨index + 1, rest, next, by rw [Nat.add_assoc, Nat.add_comm 1], child, member⟩
    · rintro ⟨index, rest, next, rfl, child, member⟩
      cases index with
      | zero =>
        cases child
        exact .inl (List.mem_map.mpr ⟨(rest, node), member, rfl⟩)
      | succ index =>
        exact .inr ⟨index, rest, next, by rw [Nat.add_assoc, Nat.add_comm 1], child, member⟩

/-- A region is its own only site: the regions inside it are not outermost ones. -/
theorem sites_of_region {tree : Tree} (region : isRegion regions tree) :
    sites regions tree = [([], tree)] := by
  cases tree with
  | leaf token => cases region
  | branch name children =>
    have named : regions.contains name = true := region
    rw [sites, if_pos named]

/-- The sites of a tree that is no region are those of its children. -/
theorem sites_of_outside {tree : Tree} (outside : isRegion regions tree = false) :
    sites regions tree = sitesFrom regions 0 tree.children := by
  cases tree with
  | leaf token => rfl
  | branch name children =>
    have unnamed : ¬ regions.contains name = true := Bool.eq_false_iff.mp outside
    rw [sites, if_neg unnamed]
    rfl

/-- The outermost regions are the regions that are reached without entering one. By induction over
the path. An empty path means that the tree itself is a region, and any other one enters a child of
a tree that is none. -/
theorem mem_sites_iff {tree : Tree} {path : List Nat} {node : Tree} :
    (path, node) ∈ sites regions tree ↔
      Reached regions tree path node ∧ isRegion regions node := by
  induction path generalizing tree with
  | nil =>
    constructor
    · intro member
      cases region : isRegion regions tree with
      | true =>
        rw [sites_of_region region, List.mem_singleton] at member
        cases member
        exact ⟨.here _, region⟩
      | false =>
        rw [sites_of_outside region, mem_sitesFrom_iff] at member
        obtain ⟨_, _, _, impossible, _⟩ := member
        cases impossible
    · rintro ⟨reached, region⟩
      cases reached
      rw [sites_of_region region]
      exact List.mem_singleton_self _
  | cons index path inductionHypothesis =>
    constructor
    · intro member
      cases region : isRegion regions tree with
      | true =>
        rw [sites_of_region region, List.mem_singleton] at member
        cases member
      | false =>
        rw [sites_of_outside region, mem_sitesFrom_iff] at member
        obtain ⟨number, rest, next, same, child, inside⟩ := member
        rw [Nat.zero_add] at same
        cases same
        obtain ⟨deeper, isRegion⟩ := inductionHypothesis.mp inside
        exact ⟨.down region child deeper, isRegion⟩
    · rintro ⟨reached, region⟩
      cases reached with
      | down outside child deeper =>
        rw [sites_of_outside outside, mem_sitesFrom_iff]
        exact ⟨index, path, _, by rw [Nat.zero_add], child,
          inductionHypothesis.mpr ⟨deeper, region⟩⟩

mutual

/-- The paths of the outermost regions are in lexicographic order. -/
theorem sites_pairwise (regions : List String) (tree : Tree) :
    ((sites regions tree).map Prod.fst).Pairwise (· < ·) := by
  cases tree with
  | leaf token => exact .nil
  | branch name children =>
    rw [sites]
    split
    · exact List.pairwise_singleton _ _
    · exact sitesFrom_pairwise regions 0 children

/-- So are those of several trees: a path in an earlier tree begins with a smaller number. Within
one tree all paths begin with its number, so what is behind that number decides. -/
theorem sitesFrom_pairwise (regions : List String) (first : Nat) (trees : List Tree) :
    ((sitesFrom regions first trees).map Prod.fst).Pairwise (· < ·) := by
  cases trees with
  | nil => exact .nil
  | cons tree trees =>
    rw [sitesFrom, List.map_append, List.map_map, List.pairwise_append]
    refine ⟨?_, sitesFrom_pairwise regions (first + 1) trees, ?_⟩
    · have inside := sites_pairwise regions tree
      rw [List.pairwise_map] at inside ⊢
      refine inside.imp ?_
      intro earlier later before
      exact List.cons_lt_cons_iff.mpr (.inr ⟨rfl, before⟩)
    · intro earlier isEarlier later isLater
      obtain ⟨site, _, rfl⟩ := List.mem_map.mp isEarlier
      obtain ⟨⟨path, node⟩, member, rfl⟩ := List.mem_map.mp isLater
      obtain ⟨index, rest, _, rfl, _⟩ := mem_sitesFrom_iff.mp member
      exact List.cons_lt_cons_iff.mpr (.inl (by omega))

end

/-! ## Resolving regions -/

variable (expressions : Expressions) (regions)

mutual

/-- The expressions that are found are those of the outermost regions. Both stop at a region, and go
into the children of any other branch. -/
theorem expressionsOf_eq_sites (tree : Tree) :
    expressionsOf expressions regions tree =
      (sites regions tree).map fun site => expressions.resolve site.2 := by
  cases tree with
  | leaf token => rfl
  | branch name children =>
    rw [expressionsOf, sites]
    split
    · rfl
    · exact expressionsOfAll_eq_sites 0 children

/-- What is resolved in several trees are their sites, in the order of the text, wherever the
numbers of the trees begin. -/
theorem expressionsOfAll_eq_sites (first : Nat) (trees : List Tree) :
    expressionsOfAll expressions regions trees =
      (sitesFrom regions first trees).map fun site => expressions.resolve site.2 := by
  cases trees with
  | nil => rfl
  | cons tree trees =>
    rw [expressionsOfAll, sitesFrom, expressionsOf_eq_sites tree,
      expressionsOfAll_eq_sites (first + 1) trees, List.map_append, List.map_map]
    rfl

end

variable {regions}

/-- Resolving the regions of a tree keeps its token or its name. -/
theorem label_resolved (tree : Tree) :
    (resolved expressions regions tree).label = tree.label := by
  cases tree with
  | leaf token => rfl
  | branch name children =>
    rw [resolved]
    split <;> rfl

/-- A region is still one when it has been resolved, and nothing else becomes one, since regions are
told by their names. -/
theorem isRegion_resolved (tree : Tree) :
    isRegion regions (resolved expressions regions tree) = isRegion regions tree := by
  cases tree with
  | leaf token => rfl
  | branch name children =>
    rw [resolved]
    split <;> rfl

/-- A region holds its expression, or nothing when that is empty. What stood in it before is
gone. -/
theorem children_resolved_of_region {tree : Tree} (region : isRegion regions tree) :
    (resolved expressions regions tree).children =
      if (expressions.resolve tree).value.isEmpty then []
      else [(expressions.resolve tree).value] := by
  cases tree with
  | leaf token => cases region
  | branch name children =>
    have named : regions.contains name = true := region
    rw [resolved, if_pos named]
    rfl

/-- A node that is no region has its children resolved. -/
theorem children_resolved_of_outside {tree : Tree} (outside : isRegion regions tree = false) :
    (resolved expressions regions tree).children =
      tree.children.map (resolved expressions regions) := by
  cases tree with
  | leaf token => rfl
  | branch name children =>
    have unnamed : ¬ regions.contains name = true := Bool.eq_false_iff.mp outside
    rw [resolved, if_neg unnamed, resolvedAll_eq_map]
    rfl

/-- What is reached without entering a region is resolved in its place. By induction over the path:
a node on the way is no region, so its children are resolved in their places. -/
theorem Reached.resolved {tree node : Tree} {path : List Nat}
    (reached : Reached regions tree path node) :
    Reached regions (Grammar.resolved expressions regions tree) path
      (Grammar.resolved expressions regions node) := by
  induction reached with
  | here tree => exact .here _
  | down outside child _ inductionHypothesis =>
    apply Reached.down
    · rw [isRegion_resolved, outside]
    · rw [children_resolved_of_outside expressions outside, List.getElem?_map, child]
      rfl
    · exact inductionHypothesis

/-- Resolving the regions of a tree, by the walk over tasks, is the recursion: a leaf stays, a
region becomes a branch with its expression, if it has one, and any other branch gets the same
done to its children. What is reported about the outermost regions is put together in the order
of the text, and nothing else is reported. A node that is reached without entering a region is
found again at its path. It is the same leaf or a branch of the same name. It has as many
children as before, or, where it is a region, at most one, the expression that is found in the
region as it was. -/
theorem resolveRegions_outermost {grammar : Grammar} {expressions : Expressions}
    (described : grammar.expressions = some expressions) (tree : Tree) :
    (grammar.resolveRegions tree).tree = Grammar.resolved expressions grammar.regions tree ∧
      (∃ found : List (List Nat × Tree), (found.map Prod.fst).Pairwise (· < ·) ∧
        (∀ path node, (path, node) ∈ found ↔
          Reached grammar.regions tree path node ∧ isRegion grammar.regions node) ∧
        (grammar.resolveRegions tree).diagnostics =
          found.flatMap fun site => (expressions.resolve site.2).diagnostics) ∧
      ∀ path node, Reached grammar.regions tree path node →
        ∃ made, Reached grammar.regions (grammar.resolveRegions tree).tree path made ∧
          made.label = node.label ∧
          (isRegion grammar.regions node = false →
            made.children.length = node.children.length) ∧
          (isRegion grammar.regions node →
            made.children.length ≤ 1 ∧
            made.children = if (expressions.resolve node).value.isEmpty then []
              else [(expressions.resolve node).value]) := by
  rw [resolveRegions_eq described]
  refine ⟨rfl, ⟨sites grammar.regions tree, sites_pairwise _ tree, fun path node => mem_sites_iff,
    ?_⟩, ?_⟩
  · rw [Resolution.diagnostics, expressionsOf_eq_sites, List.flatMap_map]
  · intro path node reached
    refine ⟨_, reached.resolved expressions, label_resolved expressions node, ?_, ?_⟩
    · intro outside
      rw [children_resolved_of_outside expressions outside, List.length_map]
    · intro region
      rw [children_resolved_of_region expressions region]
      refine ⟨?_, rfl⟩
      split <;> simp

/-- Sums in lines and in groups. -/
def lineSums : Grammar where
  lexer := {}
  nesting := {}
  expressions := some { operators := .ofList [("+", ⟨.binary, 0⟩)] }
  regions := ["line", "expression"]

/-- A block with the line `1 + (1 + 1)`, a plus sign in no line, and a block with a line that
is only a plus sign. -/
def nestedSums : Tree :=
  let one : Tree := .leaf (.bare "1" .integerLiteral)
  let plus : Tree := .leaf (.bare "+" .deliminator)
  .branch "block" [
    .branch "line" [one, plus, .branch "expression" [.branch "argument" [one, plus, one]]],
    plus,
    .branch "block" [.branch "line" [plus]]]

/-- The group in the first line is a region too, but it is an operand of the line's expression.
The line in the inner block keeps its place, with nothing in it. -/
theorem nestedSums_resolved :
    (lineSums.resolveRegions nestedSums).tree.sketch =
        "(block: (line: (binary: '1' '+' (binary: '1' '+' '1'))) '+' (block: (line:)))" ∧
      (lineSums.resolveRegions nestedSums).diagnostics.map (·.id) = ["FK2005"] ∧
      ∃ made, Reached lineSums.regions (lineSums.resolveRegions nestedSums).tree [2, 0] made ∧
        made.children.length ≤ 1 := by
  refine ⟨by decide +kernel, by decide +kernel, ?_⟩
  have outermost := (resolveRegions_outermost (rfl : lineSums.expressions = some _) nestedSums).2.2
  have reached : Reached lineSums.regions nestedSums [2, 0]
      (.branch "line" [.leaf (.bare "+" .deliminator)]) :=
    .down (by decide) rfl (.down (by decide) rfl (.here _))
  obtain ⟨made, found, _, _, single⟩ := outermost _ _ reached
  exact ⟨made, found, (single (by decide)).1⟩

end Grammar

end Parlance
