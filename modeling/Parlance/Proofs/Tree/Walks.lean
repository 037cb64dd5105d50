import Mathlib.Data.List.Basic
import Parlance.Tree.Walk

/-!
# Walks and structure

Every walk over a tree keeps a list of what is still to visit. What it finds is what the
structure of the tree says: the first and the last leaf, the leaves in the order of the text,
the number of nodes, the height, and the text of the tree. For each walk this follows from a
statement about the whole list, since a branch is replaced on it by its children: the leaves,
nodes and heights of a list of trees are those of its members together, and the steps of a text
stand for the text that they write.

The rightmost node is reached by going to the last child as long as there is one. Putting
another tree in its place changes no other node: each keeps its token, or its name and the
number of its children. Done in place, this asks for the last child of branches that have one
only.
-/

namespace Parlance.Tree

/-! ## Leaves -/

/-- The first token found among the trees to visit is the first one of their leaves. -/
theorem firstTokenOf_eq (pending : List Tree) :
    firstTokenOf pending = (leavesAll pending).head? := by
  fun_induction firstTokenOf pending with
  | case1 => rfl
  | case2 token rest => rfl
  | case3 name children rest inductionHypothesis =>
    rw [inductionHypothesis, leavesAll_append]
    rfl

/-- The first token of a tree is the first of its leaves. -/
theorem firstToken?_eq (tree : Tree) : tree.firstToken? = tree.leaves.head? := by
  rw [firstToken?, firstTokenOf_eq, leavesAll, leavesAll, List.append_nil]

/-- The last token found among the trees to visit is the last one of their leaves. -/
theorem lastTokenOf_eq (pending : List Tree) :
    lastTokenOf pending = (leavesAll pending.reverse).getLast? := by
  fun_induction lastTokenOf pending with
  | case1 => rfl
  | case2 token rest => simp [leavesAll_append, leavesAll, leaves]
  | case3 name children rest inductionHypothesis =>
    simp only [List.unattach_reverse, List.unattach_attach] at inductionHypothesis
    rw [inductionHypothesis]
    simp [leavesAll_append, leavesAll, leaves]

/-- The last token of a tree is the last of its leaves. -/
theorem lastToken?_eq (tree : Tree) : tree.lastToken? = tree.leaves.getLast? := by
  rw [lastToken?, lastTokenOf_eq]
  simp [leavesAll]

/-- The last token of a leaf is its own. -/
@[simp] theorem lastToken?_leaf (token : Token) : (leaf token).lastToken? = some token := by
  rw [lastToken?_eq, leaves, List.getLast?_singleton]

/-- The tokens of the trees to visit are put before those found, newest first. -/
theorem tokensOf_eq (found : List Token) (pending : List Tree) :
    tokensOf found pending = (leavesAll pending).reverse ++ found := by
  fun_induction tokensOf found pending with
  | case1 => rfl
  | case2 found token rest inductionHypothesis =>
    rw [inductionHypothesis]
    simp [leavesAll, leaves]
  | case3 found name children rest inductionHypothesis =>
    rw [inductionHypothesis, leavesAll_append]
    rfl

/-- The tokens of a tree are its leaves in the order of the text. -/
theorem tokens_eq (tree : Tree) : tree.tokens = tree.leaves := by
  rw [tokens, tokensOf_eq, List.append_nil, List.reverse_reverse, leavesAll, leavesAll,
    List.append_nil]

/-! ## Nodes and levels -/

/-- Every node of the trees to visit is counted once, whatever the order of the visits. -/
theorem countOf_eq (counted : Nat) (pending : List Tree) :
    countOf counted pending = counted + sizeAll pending := by
  fun_induction countOf counted pending with
  | case1 => rfl
  | case2 counted token rest inductionHypothesis =>
    rw [inductionHypothesis, sizeAll, size, Nat.add_assoc]
  | case3 counted name children rest inductionHypothesis =>
    simp only [List.unattach_reverse, List.unattach_attach] at inductionHypothesis
    rw [inductionHypothesis, sizeAll_append, sizeAll_reverse, sizeAll, size]
    omega

/-- The count of the nodes is the size of the tree. -/
theorem nodeCount_eq (tree : Tree) : tree.nodeCount = tree.size := by
  rw [nodeCount, countOf_eq, sizeAll, sizeAll, Nat.add_zero, Nat.zero_add]

/-- The level of the lowest node among trees whose roots have the given levels. -/
def lowest : List (Tree × Nat) → Nat
  | [] => 0
  | (tree, level) :: rest => max (level + tree.height - 1) (lowest rest)

/-- The lowest node of two lists of trees is that of the first or that of the second one. -/
theorem lowest_append (first second : List (Tree × Nat)) :
    lowest (first ++ second) = max (lowest first) (lowest second) := by
  induction first with
  | nil => exact (Nat.zero_max _).symm
  | cons entry rest inductionHypothesis =>
    rw [List.cons_append, lowest, lowest, inductionHypothesis, Nat.max_assoc]

/-- The order in which trees are visited does not change the level of the lowest node. -/
theorem lowest_reverse (pending : List (Tree × Nat)) : lowest pending.reverse = lowest pending := by
  induction pending with
  | nil => rfl
  | cons entry rest inductionHypothesis =>
    rw [List.reverse_cons, lowest_append, inductionHypothesis, lowest, lowest, lowest, Nat.max_zero,
      Nat.max_comm]

/-- The lowest node below a node is as many levels down as its children are high. -/
theorem max_lowest_atLevel (level : Nat) (children : List Tree) :
    max level (lowest (atLevel (level + 1) children)) = level + heightAll children := by
  induction children with
  | nil => exact Nat.max_zero level
  | cons tree trees inductionHypothesis =>
    rw [atLevel, List.map_cons, lowest, ← atLevel, heightAll]
    omega

/-- The walk finds the level of the lowest node among the trees to visit, unless it has met a
lower one. The children of a visited node are one level below it, and no node of a tree is above
its root. -/
theorem deepestOf_eq (deepest : Nat) (pending : List (Tree × Nat)) :
    deepestOf deepest pending = max deepest (lowest pending) := by
  fun_induction deepestOf deepest pending with
  | case1 deepest => exact (Nat.max_zero deepest).symm
  | case2 deepest token level rest inductionHypothesis =>
    rw [inductionHypothesis, lowest, height, Nat.add_sub_cancel, Nat.max_assoc]
  | case3 deepest name children level rest inductionHypothesis =>
    simp only [List.unattach_reverse, List.unattach_attach] at inductionHypothesis
    have below := max_lowest_atLevel level children
    have turned : lowest (atLevel (level + 1) children.reverse) =
        lowest (atLevel (level + 1) children) := by
      rw [atLevel, List.map_reverse, lowest_reverse, ← atLevel]
    rw [inductionHypothesis, lowest_append, turned, lowest, height]
    omega

/-- The depth of a tree is its height. -/
theorem depth_eq (tree : Tree) : tree.depth = tree.height := by
  rw [depth, deepestOf_eq, lowest, lowest]
  omega

/-! ## Text -/

/-- The text that steps stand for. -/
def Step.sketch : List Step → String
  | [] => ""
  | .close :: rest => ")" ++ sketch rest
  | .node tree spaced :: rest => (if spaced then " " else "") ++ tree.sketch ++ sketch rest

/-- The steps that write the children of a branch stand for their texts, each behind a space. -/
theorem Step.sketch_nodes (children : List Tree) (rest : List Step) :
    Step.sketch (Step.nodes children ++ rest) = sketchAll children ++ Step.sketch rest := by
  induction children with
  | nil => exact String.empty_append.symm
  | cons tree trees inductionHypothesis =>
    rw [Step.nodes] at inductionHypothesis
    rw [Step.nodes, List.map_cons, List.cons_append, Step.sketch, inductionHypothesis, sketchAll,
      if_pos rfl, ← String.append_assoc]

/-- A leaf is written as its text in single quotes. -/
theorem sketch_leaf (token : Token) : (leaf token).sketch = "'" ++ token.value ++ "'" := by
  simp [sketch, toString]

/-- A branch is written in parentheses, with its name and its children, and the empty tree without
the colon of a name. -/
theorem sketch_branch (name : String) (children : List Tree) :
    (branch name children).sketch =
      if name.isEmpty && children.isEmpty then "()"
      else "(" ++ name ++ ":" ++ sketchAll children ++ ")" := by
  simp [sketch, toString]

/-- A mark is written together with the space before it. -/
theorem spaced_mark (spaced : Bool) :
    (if spaced then " '" else "'") = (if spaced then " " else "") ++ "'" ∧
      (if spaced then " (" else "(") = (if spaced then " " else "") ++ "(" := by
  cases spaced <;> decide

/-- A walk writes the text of its steps behind what is written. The parenthesis that ends a
branch waits on the list until the children are written. -/
theorem writeSteps_eq (written : String) (steps : List Step) :
    writeSteps written steps = written ++ Step.sketch steps := by
  fun_induction writeSteps written steps with
  | case1 written => exact String.append_empty.symm
  | case2 written rest inductionHypothesis =>
    rw [inductionHypothesis, Step.sketch, String.append_assoc]
  | case3 written token spaced rest inductionHypothesis =>
    simp only [dite_eq_ite] at inductionHypothesis
    rw [inductionHypothesis, Step.sketch, sketch_leaf, (spaced_mark spaced).1]
    simp only [String.append_assoc]
  | case4 written name children spaced rest opened hollow inductionHypothesis =>
    rw [inductionHypothesis, Step.sketch, sketch_branch, if_pos hollow]
    simp only [opened, dite_eq_ite, (spaced_mark spaced).2, String.append_assoc]
    rfl
  | case5 written name children spaced rest opened full inductionHypothesis =>
    rw [inductionHypothesis, Step.sketch_nodes, Step.sketch, Step.sketch, sketch_branch,
      if_neg full]
    simp only [opened, dite_eq_ite, (spaced_mark spaced).2, String.append_assoc]

/-- The text of a tree is the one that its structure says. -/
theorem text_eq (tree : Tree) : tree.text = tree.sketch := by
  rw [text, writeSteps_eq, Step.sketch, Step.sketch]
  simp

/-! ## The rightmost node -/

/-- Going to the last child as long as there is one leads from the tree to the node; the path
holds the numbers of the children on the way. -/
inductive Rightward : Tree → List Nat → Tree → Prop where
  | here {tree : Tree} (childless : tree.isChildless) : Rightward tree [] tree
  | down {name : String} {front : List Tree} {last node : Tree} {path : List Nat}
    (further : Rightward last path node) :
      Rightward (.branch name (front ++ [last])) (front.length :: path) node

/-- Induction along the way to the rightmost node. -/
theorem rightward_induction {motive : Tree → Prop}
    (childless : ∀ tree : Tree, tree.isChildless → motive tree)
    (down : ∀ name front last, motive last → motive (.branch name (front ++ [last])))
    (tree : Tree) : motive tree := by
  match tree with
  | .leaf token => exact childless (.leaf token) rfl
  | .branch name children =>
    rcases List.eq_nil_or_concat' children with rfl | ⟨front, last, divided⟩
    · exact childless (.branch name []) rfl
    · rw [divided]
      exact down name front last (rightward_induction childless down last)
termination_by tree.size
decreasing_by
  simp only [divided, size, sizeAll_append, sizeAll]
  omega

/-- A tree without children is its own rightmost node. -/
theorem rightmost_of_childless {tree : Tree} (childless : tree.isChildless) :
    tree.rightmost = tree := by
  cases tree with
  | leaf token => rfl
  | branch name children =>
    obtain rfl : children = [] := List.isEmpty_iff.mp childless
    rfl

/-- The rightmost node of a branch is that of its last child. -/
theorem rightmost_branch (name : String) (front : List Tree) (last : Tree) :
    (branch name (front ++ [last])).rightmost = last.rightmost := by
  have among (none : Tree) : rightmostAll none (front ++ [last]) = last.rightmost := by
    induction front with
    | nil => rfl
    | cons tree trees inductionHypothesis =>
      cases trees <;> exact inductionHypothesis
  exact among (.branch name [])

/-- A tree without children is replaced as a whole. -/
theorem setRightmost_of_childless {tree : Tree} (childless : tree.isChildless)
    (replacement : Tree) : tree.setRightmost replacement = replacement := by
  cases tree with
  | leaf token => rfl
  | branch name children =>
    obtain rfl : children = [] := List.isEmpty_iff.mp childless
    rfl

/-- In a branch with children only the last child is changed. -/
theorem setRightmost_branch (name : String) (front : List Tree) (last replacement : Tree) :
    (branch name (front ++ [last])).setRightmost replacement =
      .branch name (front ++ [last.setRightmost replacement]) := by
  have among : setRightmostAll (front ++ [last]) replacement =
      front ++ [last.setRightmost replacement] := by
    induction front with
    | nil => rfl
    | cons tree trees inductionHypothesis =>
      cases trees <;> exact congrArg (tree :: ·) inductionHypothesis
  rw [setRightmost, if_neg (by simp), among]

/-- The rightmost node is the one that the way leads to. -/
theorem exists_rightward (tree : Tree) : ∃ path, Rightward tree path tree.rightmost := by
  induction tree using rightward_induction with
  | childless tree childless =>
    rw [rightmost_of_childless childless]
    exact ⟨[], .here childless⟩
  | down name front last inductionHypothesis =>
    obtain ⟨path, further⟩ := inductionHypothesis
    rw [rightmost_branch]
    exact ⟨front.length :: path, .down further⟩

/-- The node reached by going to the children with the given numbers in turn. -/
def nodeAt? : List Nat → Tree → Option Tree
  | [], tree => some tree
  | index :: path, tree => tree.children[index]?.bind (nodeAt? path)

/-- What a node is apart from the nodes below it: its token, or its name and the number of its
children. -/
def heading : Tree → Token ⊕ String × Nat
  | .leaf token => .inl token
  | .branch name children => .inr (name, children.length)

/-- One tree has the replacement at the path where the other one has some node. All nodes that
are not below this place are the same in both. -/
structure ReplacedAt (path : List Nat) (replacement before after : Tree) : Prop where
  placed : nodeAt? path after = some replacement
  others : ∀ other, ¬ path <+: other →
    (nodeAt? other after).map heading = (nodeAt? other before).map heading

/-- The numbers of the children on the way lead to the node at its end. -/
theorem Rightward.nodeAt? {tree node : Tree} {path : List Nat} (way : Rightward tree path node) :
    nodeAt? path tree = some node := by
  induction way with
  | here childless => rfl
  | down further inductionHypothesis =>
    rw [Tree.nodeAt?, children, List.getElem?_concat_length]
    exact inductionHypothesis

/-- What is replaced below the last child is replaced in the whole tree. A path into another child
is not changed, and one into the last child is a path below it. -/
theorem ReplacedAt.down {path : List Nat} {replacement before after : Tree}
    (replaced : ReplacedAt path replacement before after) (name : String) (front : List Tree) :
    ReplacedAt (front.length :: path) replacement (.branch name (front ++ [before]))
      (.branch name (front ++ [after])) := by
  constructor
  · rw [Tree.nodeAt?, children, List.getElem?_concat_length]
    exact replaced.placed
  · intro other notBelow
    cases other with
    | nil => simp [Tree.nodeAt?, heading]
    | cons index rest =>
      rw [Tree.nodeAt?, Tree.nodeAt?, children, children]
      rcases Nat.lt_trichotomy index front.length with earlier | same | outside
      · rw [List.getElem?_append_left earlier, List.getElem?_append_left earlier]
      · subst same
        rw [List.getElem?_concat_length, List.getElem?_concat_length]
        exact replaced.others rest fun below => notBelow (List.cons_prefix_cons.mpr ⟨rfl, below⟩)
      · rw [List.getElem?_eq_none (by simpa using Nat.succ_le_of_lt outside),
          List.getElem?_eq_none (by simpa using Nat.succ_le_of_lt outside)]

/-- Replacing the rightmost node changes the tree at the end of the way only. -/
theorem Rightward.replacedAt {tree node : Tree} {path : List Nat}
    (way : Rightward tree path node) (replacement : Tree) :
    ReplacedAt path replacement tree (tree.setRightmost replacement) := by
  induction way with
  | here childless =>
    rw [setRightmost_of_childless childless]
    exact ⟨rfl, fun other notBelow => absurd List.nil_prefix notBelow⟩
  | down further inductionHypothesis =>
    rw [setRightmost_branch]
    exact inductionHypothesis.down _ _

/-! ## The rightmost node in place -/

namespace Misuse

variable {α β : Type}

/-- A step without misuse is followed by the next one. -/
@[simp] theorem ok_bind (value : α) (next : α → Except Misuse β) :
    (Except.ok value >>= next) = next value := rfl

/-- A value that is given back is no misuse. -/
@[simp] theorem pure_eq_ok (value : α) : (pure value : Except Misuse α) = .ok value := rfl

end Misuse

/-- Every tree has at least one node. -/
theorem size_pos (tree : Tree) : 0 < tree.size := by
  cases tree with
  | leaf token => exact Nat.one_pos
  | branch name children =>
    rw [size]
    omega

/-- The children that are taken out of a branch are smaller together than the branch. -/
theorem sizeAll_lt_of_intoChildren {tree : Tree} {children : List Tree}
    (unpacked : tree.intoChildren = .ok children) : sizeAll children < tree.size := by
  cases tree with
  | leaf token => cases unpacked
  | branch name held =>
    obtain rfl := Except.ok.inj unpacked
    rw [size]
    omega

/-- The last child of a tree is smaller than the tree. -/
theorem size_lt_of_getLast? {tree last : Tree} (found : tree.children.getLast? = some last) :
    last.size < tree.size := by
  cases tree with
  | leaf token => cases found
  | branch name children =>
    obtain ⟨front, rfl⟩ := List.getLast?_eq_some_iff.mp found
    rw [size, sizeAll_append, sizeAll, sizeAll]
    omega

/-- The last child is found without misuse only where there is one, and it is the last of the
children. -/
theorem lastChild_eq_ok {tree last : Tree} (found : tree.lastChild = .ok last) :
    tree.children.getLast? = some last := by
  cases tree with
  | leaf token => cases found
  | branch name children =>
    simp only [lastChild] at found
    split at found
    · rename_i same
      rw [Except.ok.inj found] at same
      exact same
    · cases found

namespace InPlace

/-- Go to the last child until there is none. -/
def rightmost (tree : Tree) : Tree :=
  match _found : tree.children.getLast? with
  | some last => rightmost last
  | none => tree
termination_by tree.size
decreasing_by exact size_lt_of_getLast? _found

/-- Go to the last child until a tree has none, and write the replacement there. -/
def setRightmost (tree replacement : Tree) : Except Misuse Tree :=
  if tree.isChildless then .ok replacement
  else match _found : tree.lastChild with
    | .error misuse => .error misuse
    | .ok last => do
      let written ← setRightmost last replacement
      tree.setLastChild written
termination_by tree.size
decreasing_by exact size_lt_of_getLast? (lastChild_eq_ok _found)

/-- Going to the last child as long as there is one comes to the rightmost node. The induction goes
down the right edge of the tree. -/
theorem rightmost_eq (tree : Tree) : rightmost tree = tree.rightmost := by
  induction tree using rightward_induction with
  | childless tree childless =>
    rw [rightmost, rightmost_of_childless childless]
    split
    · rename_i last found
      simp [isChildless] at childless
      simp [childless] at found
    · rfl
  | down name front last inductionHypothesis =>
    rw [rightmost, rightmost_branch]
    split
    · rename_i reached found
      obtain rfl : last = reached := by simpa [children] using found
      exact inductionHypothesis
    · rename_i missing
      simp [children] at missing

/-- Only branches with children are asked for the last one. The induction goes down the right edge,
and every node above the rightmost one has children. -/
theorem setRightmost_eq_ok (tree replacement : Tree) :
    setRightmost tree replacement = .ok (tree.setRightmost replacement) := by
  induction tree using rightward_induction with
  | childless tree childless =>
    rw [setRightmost, if_pos childless, setRightmost_of_childless childless]
  | down name front last inductionHypothesis =>
    have asked : (branch name (front ++ [last])).lastChild = .ok last := by simp [lastChild]
    rw [setRightmost, if_neg (by simp [isChildless, children]), setRightmost_branch]
    split
    · rename_i misuse failed
      rw [asked] at failed
      cases failed
    · rename_i reached found
      rw [asked] at found
      obtain rfl := Except.ok.inj found
      rw [inductionHypothesis]
      simp [setLastChild]

end InPlace

/-- The walks find what the structure says: the first and the last of the leaves, the leaves
themselves in the order of the text, as they are laid out on a page, the number of nodes, the
height, and the text of the tree. Going to the last child as long as there is one leads to the
rightmost node. Writing a tree there in place never asks for a child that is missing, puts the
tree in the place of that node, and leaves all other nodes as they are. -/
theorem walks_exact (tree : Tree) :
    (tree.firstToken? = tree.leaves.head? ∧ tree.lastToken? = tree.leaves.getLast?) ∧
      (tree.nodeCount = tree.size ∧ tree.depth = tree.height) ∧
      tree.text = tree.sketch ∧ tree.tokens = tree.leaves ∧
      InPlace.rightmost tree = tree.rightmost ∧
      ∃ path, Rightward tree path tree.rightmost ∧ nodeAt? path tree = some tree.rightmost ∧
        ∀ replacement,
          InPlace.setRightmost tree replacement = .ok (tree.setRightmost replacement) ∧
          ReplacedAt path replacement tree (tree.setRightmost replacement) := by
  obtain ⟨path, way⟩ := tree.exists_rightward
  refine ⟨⟨tree.firstToken?_eq, tree.lastToken?_eq⟩, ⟨tree.nodeCount_eq, tree.depth_eq⟩,
    tree.text_eq, tree.tokens_eq, InPlace.rightmost_eq tree, path, way, way.nodeAt?, ?_⟩
  intro replacement
  exact ⟨InPlace.setRightmost_eq_ok tree replacement, way.replacedAt replacement⟩

end Parlance.Tree
