import Mathlib.Data.List.Forall2
import Parlance.Diagnostic.Catalogue
import Parlance.Tree.Walk

/-!
# Without places

What a text says is the text and the class of its tokens; where they stand is layout. To say
that a pass does not depend on layout, every token is moved to the start of a text without a
name. A pass that gives the same for the moved tokens, moved in the same way, cannot tell two
layouts of the same tokens apart.

A diagnostic is moved with the token it is about: it keeps the number of bytes it covers, and
all that it says.
-/

namespace Parlance

/-! ## Tokens and diagnostics -/

/-- The token at the start of a text without a name. -/
def Token.unplaced (token : Token) : Token := { value := token.value, tag := token.tag }

/-- A token keeps its text when its place is forgotten. -/
@[simp] theorem Token.unplaced_value (token : Token) : token.unplaced.value = token.value := rfl

/-- A place that is forgotten is not forgotten once more. -/
@[simp] theorem Token.unplaced_unplaced (token : Token) :
    token.unplaced.unplaced = token.unplaced := rfl

/-- Both tokens have the same text and class, wherever they stand. -/
def Token.ReadsAs (first second : Token) : Prop :=
  first.value = second.value ∧ first.tag = second.tag

/-- Tokens that read alike differ in their places only. -/
theorem Token.ReadsAs.unplaced_eq {first second : Token} (same : first.ReadsAs second) :
    first.unplaced = second.unplaced := by
  rw [Token.unplaced, Token.unplaced, same.1, same.2]

/-- Lists of tokens that read alike differ in places only. -/
theorem map_unplaced_eq {first second : List Token}
    (same : List.Forall₂ Token.ReadsAs first second) :
    first.map Token.unplaced = second.map Token.unplaced := by
  induction same with
  | nil => rfl
  | cons reads _ inductionHypothesis =>
    rw [List.map_cons, List.map_cons, reads.unplaced_eq, inductionHypothesis]

/-- As many bytes at the start of a text. -/
def Span.unplaced (span : Span) : Span := ⟨0, span.stop - span.start⟩

/-- Forgetting the place of a range of bytes a second time changes nothing. -/
@[simp] theorem Span.unplaced_unplaced (span : Span) : span.unplaced.unplaced = span.unplaced := by
  simp [Span.unplaced]

/-- The diagnostic moved to the start of a text without a name. -/
def Diagnostic.unplaced (diagnostic : Diagnostic) : Diagnostic :=
  { diagnostic with
    span := diagnostic.span.map Span.unplaced
    location := diagnostic.location.map fun _ => Token.location {} }

/-- Forgetting the place of a diagnostic a second time changes nothing. -/
@[simp] theorem Diagnostic.unplaced_unplaced (diagnostic : Diagnostic) :
    diagnostic.unplaced.unplaced = diagnostic.unplaced := by
  simp [Diagnostic.unplaced, Function.comp_def]

/-- Both diagnostics say the same, whatever place they point at. -/
structure Diagnostic.SaysAs (first second : Diagnostic) : Prop where
  id : first.id = second.id
  severity : first.severity = second.severity
  message : first.message = second.message
  context : first.context = second.context

/-- Diagnostics that differ in places only say the same. -/
theorem Diagnostic.saysAs_of_unplaced_eq {first second : Diagnostic}
    (same : first.unplaced = second.unplaced) : first.SaysAs second := by
  obtain ⟨id, severity, message, _, _, context⟩ := Diagnostic.mk.inj same
  exact ⟨id, severity, message, context⟩

/-- Lists of diagnostics that differ in places only say the same, one by one. Equal lists agree
member by member, and what is forgotten is no part of what is said. -/
theorem saysAs_of_map_unplaced_eq {first second : List Diagnostic}
    (same : first.map Diagnostic.unplaced = second.map Diagnostic.unplaced) :
    List.Forall₂ Diagnostic.SaysAs first second := by
  have moved : List.Forall₂ Eq (first.map Diagnostic.unplaced)
      (second.map Diagnostic.unplaced) := by
    rw [List.forall₂_eq_eq_eq, same]
  rw [List.forall₂_map_left_iff, List.forall₂_map_right_iff] at moved
  exact moved.imp fun _ _ => Diagnostic.saysAs_of_unplaced_eq

/-- What is said about a token is said about it at any place. -/
theorem Problem.diagnose_unplaced (problem : Problem) (token : Token) :
    problem.diagnose token.unplaced = (problem.diagnose token).unplaced := by
  simp [Problem.diagnose, Diagnostic.unplaced, Span.unplaced, Token.span, Token.location,
    Token.unplaced, Diagnostic.catalogued]

/-! ## Trees -/

namespace Tree

mutual

/-- The tree with all its tokens moved to the start of a text without a name. -/
def unplaced : Tree → Tree
  | .leaf token => .leaf token.unplaced
  | .branch name children => .branch name (unplacedAll children)

/-- Several trees with all their tokens moved. -/
def unplacedAll : List Tree → List Tree
  | [] => []
  | tree :: trees => tree.unplaced :: unplacedAll trees

end

/-- The places of trees are forgotten one tree after the other. -/
theorem unplacedAll_eq_map (trees : List Tree) : unplacedAll trees = trees.map unplaced := by
  induction trees with
  | nil => rfl
  | cons tree trees inductionHypothesis => rw [unplacedAll, inductionHypothesis, List.map_cons]

/-- A leaf without its place is the leaf of its token without the place. -/
@[simp] theorem unplaced_leaf (token : Token) : (leaf token).unplaced = .leaf token.unplaced := rfl

/-- A branch has no place of its own, so that only those of its children are forgotten. -/
@[simp] theorem unplaced_branch (name : String) (children : List Tree) :
    (branch name children).unplaced = .branch name (children.map unplaced) := by
  rw [unplaced, unplacedAll_eq_map]

/-- The empty tree has no places. -/
@[simp] theorem unplaced_empty : Tree.empty.unplaced = .empty := rfl

mutual

/-- A tree without places has none to lose. By induction over the tree, together with the same for
its children. -/
@[simp] theorem unplaced_unplaced (tree : Tree) : tree.unplaced.unplaced = tree.unplaced := by
  cases tree with
  | leaf token => rfl
  | branch name children => rw [unplaced, unplaced, unplacedAll_unplacedAll children]

/-- Forgetting the places of trees a second time changes nothing. -/
theorem unplacedAll_unplacedAll (trees : List Tree) :
    unplacedAll (unplacedAll trees) = unplacedAll trees := by
  cases trees with
  | nil => rfl
  | cons tree trees =>
    rw [unplacedAll, unplacedAll, unplaced_unplaced tree, unplacedAll_unplacedAll trees]

end

/-- The children of a tree without places are its children without theirs. -/
@[simp] theorem children_unplaced (tree : Tree) :
    tree.unplaced.children = tree.children.map unplaced := by
  cases tree <;> simp [children]

/-- Whether a tree is empty does not depend on places. -/
@[simp] theorem isEmpty_unplaced (tree : Tree) : tree.unplaced.isEmpty = tree.isEmpty := by
  cases tree with
  | leaf token => rfl
  | branch name children => cases children <;> simp [isEmpty]

/-- Whether a tree has children does not depend on places. -/
@[simp] theorem isChildless_unplaced (tree : Tree) :
    tree.unplaced.isChildless = tree.isChildless := by
  simp [isChildless]

/-- The text of a leaf does not depend on places. -/
@[simp] theorem value?_unplaced (tree : Tree) : tree.unplaced.value? = tree.value? := by
  cases tree <;> simp [value?]

/-- The last token among trees is the same token when places are forgotten. The walk meets the same
branches in the same order, so that its cases are followed one by one. -/
theorem lastTokenOf_unplaced (pending : List Tree) :
    lastTokenOf (pending.map unplaced) = (lastTokenOf pending).map Token.unplaced := by
  fun_induction lastTokenOf pending with
  | case1 => simp [lastTokenOf]
  | case2 token rest => simp [lastTokenOf]
  | case3 name children rest inductionHypothesis =>
    simp only [List.unattach_reverse, List.unattach_attach] at inductionHypothesis
    rw [List.map_cons, unplaced_branch, lastTokenOf, ← inductionHypothesis, List.map_append,
      List.map_reverse]

/-- The last token is the same one, moved. -/
@[simp] theorem lastToken?_unplaced (tree : Tree) :
    tree.unplaced.lastToken? = tree.lastToken?.map Token.unplaced :=
  lastTokenOf_unplaced [tree]

end Tree

/-- A result without places, its value being freed of them by `free`. -/
def Reported.unplaced {α : Type} (free : α → α) (reported : Reported α) : Reported α where
  value := free reported.value
  diagnostics := reported.diagnostics.map Diagnostic.unplaced

/-- Both results have the same tree but for the places of its tokens, and the diagnostics of
both say the same, one by one. -/
structure Reported.SaysAs (first second : Reported Tree) : Prop where
  tree : first.value.unplaced = second.value.unplaced
  diagnostics : List.Forall₂ Diagnostic.SaysAs first.diagnostics second.diagnostics

/-- Results that differ in places only say the same. -/
theorem Reported.saysAs_of_unplaced_eq {first second : Reported Tree}
    (same : first.unplaced Tree.unplaced = second.unplaced Tree.unplaced) :
    first.SaysAs second := by
  obtain ⟨value, diagnostics⟩ := Reported.mk.inj same
  exact ⟨value, saysAs_of_map_unplaced_eq diagnostics⟩

end Parlance
