import Parlance.Token

/-!
# Trees

A tree is a leaf that holds one token, or a branch with a name and children in
order. The empty tree is the branch without name and without children; it stands
for "nothing here".

The functions of this module that look at a whole tree follow its structure and
say what is meant. The walks in `Parlance.Tree.Walk` compute the same with a list
of what is still to visit, so that the depth of a tree does not matter.
-/

namespace Parlance

/-- A token, or a named node with children. -/
inductive Tree where
  | leaf (token : Token)
  | branch (name : String) (children : List Tree)
deriving Repr, Inhabited

namespace Tree

mutual

/-- Two trees are compared node by node. -/
def decideEq : (left right : Tree) → Decidable (left = right)
  | .leaf first, .leaf second =>
    if same : first = second then .isTrue (congrArg Tree.leaf same)
    else .isFalse fun equal => same (Tree.leaf.inj equal)
  | .leaf _, .branch .. => .isFalse nofun
  | .branch .., .leaf _ => .isFalse nofun
  | .branch first trees, .branch second others =>
    if same : first = second then
      match decideEqList trees others with
      | .isTrue equal => .isTrue (same ▸ equal ▸ rfl)
      | .isFalse different => .isFalse fun equal => different (Tree.branch.inj equal).2
    else .isFalse fun equal => same (Tree.branch.inj equal).1

/-- Two lists of trees are compared tree by tree. -/
def decideEqList : (left right : List Tree) → Decidable (left = right)
  | [], [] => .isTrue rfl
  | [], _ :: _ => .isFalse nofun
  | _ :: _, [] => .isFalse nofun
  | first :: trees, second :: others =>
    match decideEq first second with
    | .isFalse different => .isFalse fun equal => different (List.cons.inj equal).1
    | .isTrue same =>
      match decideEqList trees others with
      | .isFalse different => .isFalse fun equal => different (List.cons.inj equal).2
      | .isTrue equal => .isTrue (same ▸ equal ▸ rfl)

end

instance : DecidableEq Tree := decideEq

/-- The branch without name and children. -/
def empty : Tree := .branch "" []

/-- Whether the tree is a leaf. -/
def isLeaf : Tree → Bool
  | .leaf _ => true
  | .branch .. => false

/-- Whether the tree is a branch. -/
def isBranch (tree : Tree) : Bool := !tree.isLeaf

/-- Whether the tree is the empty tree. -/
def isEmpty : Tree → Bool
  | .branch name [] => name.isEmpty
  | _ => false

/-- The children of a branch; a leaf has none. -/
def children : Tree → List Tree
  | .leaf _ => []
  | .branch _ children => children

/-- Whether the tree has no children. -/
def isChildless (tree : Tree) : Bool := tree.children.isEmpty

/-- Whether the tree is a branch of the given name. -/
def isNamed (tree : Tree) (name : String) : Bool :=
  match tree with
  | .leaf _ => false
  | .branch held _ => held = name

/-- The text of a leaf. -/
def value? : Tree → Option String
  | .leaf token => some token.value
  | .branch .. => none

/-! ## Access that requires a leaf or a branch -/

/-- A part was asked of a tree that has no such part. -/
inductive Misuse where
  /-- The token of a branch. -/
  | tokenOfBranch (name : String)
  /-- The name of a leaf. -/
  | nameOfLeaf (value : String)
  /-- The children of a leaf. -/
  | childrenOfLeaf (value : String)
  /-- The children of a leaf, to be changed or taken out. -/
  | changeOfLeaf (value : String)
  /-- The last child of a branch without children. -/
  | lastChildOfNone
  /-- The token of a branch, to be taken out. -/
  | contentOfBranch (name : String)
deriving DecidableEq, Repr

/-- The wording of a misuse. -/
def Misuse.message : Misuse → String
  | .tokenOfBranch name => s!"token() called on branch '{name}'"
  | .nameOfLeaf value => s!"name() called on leaf '{value}'"
  | .childrenOfLeaf value => s!"children() called on leaf '{value}'"
  | .changeOfLeaf value => s!"children_mut() called on leaf '{value}'"
  | .lastChildOfNone => "last_child_mut() on childless branch"
  | .contentOfBranch name => s!"into_token() called on branch '{name}'"

/-- The token of a leaf. -/
def token : Tree → Except Misuse Token
  | .leaf token => .ok token
  | .branch name _ => .error (.tokenOfBranch name)

/-- The name of a branch. -/
def name : Tree → Except Misuse String
  | .leaf token => .error (.nameOfLeaf token.value)
  | .branch name _ => .ok name

/-- The children of a branch. -/
def branchChildren : Tree → Except Misuse (List Tree)
  | .leaf token => .error (.childrenOfLeaf token.value)
  | .branch _ children => .ok children

/-- The branch with one more child at the end. -/
def push (tree child : Tree) : Except Misuse Tree :=
  match tree with
  | .leaf token => .error (.changeOfLeaf token.value)
  | .branch name children => .ok (.branch name (children ++ [child]))

/-- The last child of a branch. -/
def lastChild : Tree → Except Misuse Tree
  | .leaf token => .error (.changeOfLeaf token.value)
  | .branch _ children =>
    match children.getLast? with
    | some child => .ok child
    | none => .error .lastChildOfNone

/-- The branch with its last child replaced. -/
def setLastChild (tree child : Tree) : Except Misuse Tree :=
  match tree with
  | .leaf token => .error (.changeOfLeaf token.value)
  | .branch name children =>
    if children.isEmpty then .error .lastChildOfNone
    else .ok (.branch name (children.dropLast ++ [child]))

/-- The token of a leaf that is taken apart. -/
def intoToken : Tree → Except Misuse Token
  | .leaf token => .ok token
  | .branch name _ => .error (.contentOfBranch name)

/-- The children of a branch that is taken apart. -/
def intoChildren : Tree → Except Misuse (List Tree)
  | .leaf token => .error (.changeOfLeaf token.value)
  | .branch _ children => .ok children

/-! ## Whole trees, by structure -/

mutual

/-- The tokens of the leaves from left to right. -/
def leaves : Tree → List Token
  | .leaf token => [token]
  | .branch _ children => leavesAll children

/-- The tokens of the leaves of several trees. -/
def leavesAll : List Tree → List Token
  | [] => []
  | tree :: trees => tree.leaves ++ leavesAll trees

end

/-- The leaves of two lists of trees follow one another. -/
theorem leavesAll_append (left right : List Tree) :
    leavesAll (left ++ right) = leavesAll left ++ leavesAll right := by
  induction left with
  | nil => rfl
  | cons tree trees inductionHypothesis =>
    simp only [List.cons_append, leavesAll, inductionHypothesis, List.append_assoc]

/-- The leaves of several trees are those of each of them. -/
theorem mem_leavesAll {trees : List Tree} {token : Token} :
    token ∈ leavesAll trees ↔ ∃ tree ∈ trees, token ∈ tree.leaves := by
  induction trees with
  | nil => simp [leavesAll]
  | cons tree trees inductionHypothesis => simp [leavesAll, inductionHypothesis]

mutual

/-- The number of nodes. -/
def size : Tree → Nat
  | .leaf _ => 1
  | .branch _ children => 1 + sizeAll children

/-- The number of nodes of several trees. -/
def sizeAll : List Tree → Nat
  | [] => 0
  | tree :: trees => tree.size + sizeAll trees

end

mutual

/-- The number of nodes on the longest path down from the root. -/
def height : Tree → Nat
  | .leaf _ => 1
  | .branch _ children => 1 + heightAll children

/-- The height of the highest of several trees. -/
def heightAll : List Tree → Nat
  | [] => 0
  | tree :: trees => max tree.height (heightAll trees)

end

mutual

/-- The tree as text: a leaf in single quotes, a branch in parentheses with its
name and its children, the empty tree as bare parentheses. -/
def sketch : Tree → String
  | .leaf token => s!"'{token.value}'"
  | .branch name children =>
    if name.isEmpty && children.isEmpty then "()" else s!"({name}:" ++ sketchAll children ++ ")"

/-- Several trees as text, each behind a space. -/
def sketchAll : List Tree → String
  | [] => ""
  | tree :: trees => " " ++ tree.sketch ++ sketchAll trees

end

mutual

/-- The node reached by going to the last child as long as there is one. -/
def rightmost : Tree → Tree
  | .leaf token => .leaf token
  | .branch name children => rightmostAll (.branch name []) children

/-- The rightmost node of the last of several trees, or `none` of them. -/
def rightmostAll (none : Tree) : List Tree → Tree
  | [] => none
  | [tree] => tree.rightmost
  | _ :: tree :: trees => rightmostAll none (tree :: trees)

end

mutual

/-- The tree with its rightmost node replaced. -/
def setRightmost (tree replacement : Tree) : Tree :=
  match tree with
  | .leaf _ => replacement
  | .branch name children =>
    if children.isEmpty then replacement
    else .branch name (setRightmostAll children replacement)

/-- Several trees with the rightmost node of the last one replaced. -/
def setRightmostAll (trees : List Tree) (replacement : Tree) : List Tree :=
  match trees with
  | [] => []
  | [tree] => [tree.setRightmost replacement]
  | tree :: next :: rest => tree :: setRightmostAll (next :: rest) replacement

end

end Tree

end Parlance
