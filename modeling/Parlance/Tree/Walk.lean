import Parlance.Tree.Basic

/-!
# Walks over trees

Each walk keeps the list of what is still to visit and works on its head until
nothing is left, so its need for stack does not grow with the depth of the tree.
The number of nodes on the list decreases with every visit. The first token, the
list of tokens and the text are found by visiting the first child first; the last
token, the number of nodes and the depth by visiting the last child first.
-/

namespace Parlance.Tree

/-- The nodes of two lists of trees add up. -/
theorem sizeAll_append (left right : List Tree) :
    Tree.sizeAll (left ++ right) = Tree.sizeAll left + Tree.sizeAll right := by
  induction left with
  | nil => simp [Tree.sizeAll]
  | cons tree trees inductionHypothesis =>
    simp only [List.cons_append, Tree.sizeAll, inductionHypothesis]
    omega

/-- The order of trees does not change their nodes. -/
theorem sizeAll_reverse (trees : List Tree) : Tree.sizeAll trees.reverse = Tree.sizeAll trees := by
  induction trees with
  | nil => rfl
  | cons tree trees inductionHypothesis =>
    simp only [List.reverse_cons, sizeAll_append, Tree.sizeAll, inductionHypothesis]
    omega

/-- The first token in the order of the text among the trees to visit. -/
def firstTokenOf : List Tree → Option Token
  | [] => none
  | .leaf token :: _ => some token
  | .branch _ children :: rest => firstTokenOf (children ++ rest)
termination_by pending => Tree.sizeAll pending
decreasing_by simp only [sizeAll_append, Tree.sizeAll, Tree.size]; omega

/-- The first token of the tree, if it has any. -/
def firstToken? (tree : Tree) : Option Token := firstTokenOf [tree]

/-- The last token in the order of the text among the trees to visit, the last of
which comes first. -/
def lastTokenOf : List Tree → Option Token
  | [] => none
  | .leaf token :: _ => some token
  | .branch _ children :: rest => lastTokenOf (children.reverse ++ rest)
termination_by pending => Tree.sizeAll pending
decreasing_by
  simp only [List.unattach_reverse, List.unattach_attach, sizeAll_append, sizeAll_reverse,
    Tree.sizeAll, Tree.size]
  omega

/-- The last token of the tree, if it has any. -/
def lastToken? (tree : Tree) : Option Token := lastTokenOf [tree]

/-- The tokens found so far, newest first, with those of the trees to visit. -/
def tokensOf (found : List Token) : List Tree → List Token
  | [] => found
  | .leaf token :: rest => tokensOf (token :: found) rest
  | .branch _ children :: rest => tokensOf found (children ++ rest)
termination_by pending => Tree.sizeAll pending
decreasing_by
  · simp only [Tree.sizeAll, Tree.size]; omega
  · simp only [sizeAll_append, Tree.sizeAll, Tree.size]; omega

/-- The tokens of the tree in the order of the text. -/
def tokens (tree : Tree) : List Token := (tokensOf [] [tree]).reverse

/-- The nodes counted so far together with those of the trees to visit, the last of
which comes first. -/
def countOf (counted : Nat) : List Tree → Nat
  | [] => counted
  | .leaf _ :: rest => countOf (counted + 1) rest
  | .branch _ children :: rest => countOf (counted + 1) (children.reverse ++ rest)
termination_by pending => Tree.sizeAll pending
decreasing_by
  · simp only [Tree.sizeAll, Tree.size]; omega
  · simp only [List.unattach_reverse, List.unattach_attach, sizeAll_append, sizeAll_reverse,
      Tree.sizeAll, Tree.size]
    omega

/-- The number of nodes of the tree. -/
def nodeCount (tree : Tree) : Nat := countOf 0 [tree]

/-- Trees together with the level of their roots. -/
def atLevel (level : Nat) (trees : List Tree) : List (Tree × Nat) := trees.map (·, level)

/-- Levels do not change the nodes. -/
theorem sizeAll_atLevel (level : Nat) (trees : List Tree) :
    Tree.sizeAll ((atLevel level trees).map (·.1)) = Tree.sizeAll trees := by
  simp [atLevel, Function.comp_def]

/-- The deepest level met so far or among the trees to visit, each given with the
level of its root and the last one first. -/
def deepestOf (deepest : Nat) : List (Tree × Nat) → Nat
  | [] => deepest
  | (.leaf _, level) :: rest => deepestOf (max deepest level) rest
  | (.branch _ children, level) :: rest =>
    deepestOf (max deepest level) (atLevel (level + 1) children.reverse ++ rest)
termination_by pending => Tree.sizeAll (pending.map (·.1))
decreasing_by
  · simp only [List.map_cons, Tree.sizeAll, Tree.size]; omega
  · simp only [List.map_append, List.map_cons, sizeAll_append, sizeAll_atLevel,
      List.unattach_reverse, List.unattach_attach, sizeAll_reverse, Tree.sizeAll, Tree.size]
    omega

/-- The number of nodes on the longest path down from the root. -/
def depth (tree : Tree) : Nat := deepestOf 0 [(tree, 1)]

/-- What is still to be written of a tree's text. -/
inductive Step where
  /-- A node, behind a space or not. -/
  | node (tree : Tree) (spaced : Bool)
  /-- The parenthesis that ends a branch. -/
  | close

/-- The work left in steps: the nodes to be written and the parentheses. -/
def Step.work : Step → Nat
  | .node tree _ => 2 * tree.size
  | .close => 1

/-- The work left in several steps. -/
def Step.workOf : List Step → Nat
  | [] => 0
  | step :: rest => step.work + Step.workOf rest

/-- The work of two lists of steps adds up. -/
theorem Step.workOf_append (left right : List Step) :
    Step.workOf (left ++ right) = Step.workOf left + Step.workOf right := by
  induction left with
  | nil => simp [Step.workOf]
  | cons step rest inductionHypothesis =>
    simp only [List.cons_append, Step.workOf, inductionHypothesis]
    omega

/-- The steps that write the children of a branch, each behind a space. -/
def Step.nodes (children : List Tree) : List Step := children.map (Step.node · true)

/-- Writing the children of a branch is twice their nodes. -/
theorem Step.workOf_nodes (children : List Tree) :
    Step.workOf (Step.nodes children) = 2 * Tree.sizeAll children := by
  induction children with
  | nil => rfl
  | cons tree trees inductionHypothesis =>
    simp only [Step.nodes, List.map_cons, Step.workOf, Step.work, Tree.sizeAll] at *
    omega

/-- The text written so far, continued by the steps. -/
def writeSteps (written : String) : List Step → String
  | [] => written
  | .close :: rest => writeSteps (written ++ ")") rest
  | .node (.leaf token) spaced :: rest =>
    writeSteps (written ++ (if spaced then " '" else "'") ++ token.value ++ "'") rest
  | .node (.branch name children) spaced :: rest =>
    let opened := written ++ (if spaced then " (" else "(")
    if name.isEmpty && children.isEmpty then writeSteps (opened ++ ")") rest
    else writeSteps (opened ++ name ++ ":")
      (Step.nodes children ++ Step.close :: rest)
termination_by steps => Step.workOf steps
decreasing_by
  · simp only [Step.workOf, Step.work]; omega
  · simp only [Step.workOf, Step.work, Tree.size]; omega
  · simp only [Step.workOf, Step.work, Tree.size]; omega
  · simp only [Step.workOf_append, Step.workOf, Step.workOf_nodes, Step.work, Tree.size]
    omega

/-- The tree as text: a leaf in single quotes, a branch in parentheses with its
name and its children, the empty tree as bare parentheses. -/
def text (tree : Tree) : String := writeSteps "" [.node tree false]

end Parlance.Tree
