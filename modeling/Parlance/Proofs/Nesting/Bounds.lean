import Parlance.Proofs.Dictionary
import Parlance.Proofs.Nesting.Step

/-!
# Declared bounds, and which of them can be closed

A nesting is declared one bound after the other. A declaration is refused when a token is
missing, when the bound would start and end with one token, when another bound has its
start or its closing token, and when it has a separator for no elements; a refused
declaration changes nothing. So every declared bound stands under its own start token,
which is not its closing token.

Nothing compares the start of one bound with the closing token of another. Where they are
the same, the token starts a bound wherever it stands, and the bound that it should close
stays open. These are the only bounds that cannot be closed.
-/

namespace Parlance

/-- Without definitions, no node is exchanged. -/
theorem NodeHook.expand_empty : NodeHook.expand .empty Option.none = NodeHook.none := by
  funext node state
  cases node <;> rfl

namespace Nesting

/-- Without definitions, building leaves every node as it is. -/
theorem build_of_undefined {nesting : Nesting} (undefined : nesting.definitions = .empty)
    (tokens : List Token) :
    nesting.build tokens = (nesting.buildWith .none () tokens).toReported := by
  rw [build, undefined, NodeHook.expand_empty]

/-! ## Declarations -/

/-- A token closes nothing when it is the closing token of no declared bound. -/
theorem closed?_eq_none_iff (nesting : Nesting) (value : String) :
    nesting.closed? value = none ↔
      ∀ start bound, nesting.opened? start = some bound → bound.closing ≠ value := by
  simp only [closed?, List.find?_eq_none, Dictionary.mem_values_iff, decide_eq_true_eq]
  exact ⟨fun unclosed start bound opened => unclosed bound ⟨start, opened⟩,
    fun unclosed bound ⟨start, opened⟩ => unclosed start bound opened⟩

/-- A bound as it is declared. An empty element or separator means none. -/
structure Declaration where
  name : String
  start : String
  closing : String
  element : String := ""
  split : Option String := none

/-- The declared bound. -/
def Declaration.bound (declaration : Declaration) : Bound where
  name := declaration.name
  start := declaration.start
  closing := declaration.closing
  element := nonempty declaration.element
  split := declaration.split.bind nonempty

/-- The nesting after a declaration. One that is refused changes nothing. -/
def declare (nesting : Nesting) (declaration : Declaration) : Nesting :=
  match nesting.bind declaration.name declaration.start declaration.closing declaration.element
      declaration.split with
  | .ok extended => extended
  | .error _ => nesting

/-- A new nesting after declarations. -/
def declaredBy (declarations : List Declaration) : Nesting := declarations.foldl declare {}

/-- A bound is accepted exactly when both of its tokens are given and differ, no bound has
its start, no bound has its closing token, and a separator has elements to divide. It is
then stored under its start, and nothing else changes. -/
theorem bind_eq_ok_iff (nesting extended : Nesting) (declaration : Declaration) :
    nesting.bind declaration.name declaration.start declaration.closing declaration.element
        declaration.split = .ok extended ↔
      declaration.start ≠ "" ∧ declaration.closing ≠ "" ∧
        declaration.start ≠ declaration.closing ∧
        nesting.opened? declaration.start = none ∧ nesting.closed? declaration.closing = none ∧
        (declaration.bound.split.isSome → declaration.element ≠ "") ∧
        extended = { nesting with
          bounds := nesting.bounds.insert declaration.start declaration.bound } := by
  have held : nesting.bounds.contains declaration.start = true ↔
      nesting.opened? declaration.start ≠ none := by
    rw [Dictionary.contains, Option.isSome_iff_ne_none, opened?]
  unfold bind
  by_cases noStart : declaration.start = ""
  · simp [noStart]
  by_cases noClosing : declaration.closing = ""
  · simp [noStart, noClosing]
  by_cases same : declaration.start = declaration.closing
  · simp [noClosing, same]
  by_cases started : nesting.opened? declaration.start = none
  · simp only [String.isEmpty_iff, noStart, noClosing, same, held, started, if_false, ne_eq,
      not_true_eq_false, not_false_eq_true, true_and]
    cases nesting.closed? declaration.closing with
    | some other => simp
    | none =>
      have split : declaration.bound.split = declaration.split.bind nonempty := rfl
      simp only [split, Bool.and_eq_true, String.isEmpty_iff, true_and]
      by_cases useless : (declaration.split.bind nonempty).isSome ∧ declaration.element = ""
      · rw [if_pos useless]
        constructor
        · intro accepted
          cases accepted
        · rintro ⟨divides, _⟩
          exact absurd useless.2 (divides useless.1)
      · rw [if_neg useless]
        constructor
        · intro accepted
          cases accepted
          exact ⟨not_and.mp useless, rfl⟩
        · rintro ⟨_, rfl⟩
          rfl
  · simp [noStart, noClosing, same, held, started]

/-- What declarations leave behind: a nesting like a new one but for its bounds, each of
which stands under its own start. -/
structure Declared (nesting : Nesting) : Prop where
  root : nesting.root = { name := "global" }
  definitions : nesting.definitions = .empty
  keyed : ∀ start bound, nesting.opened? start = some bound → bound.start = start

/-- A declaration, whether it is accepted or not, leaves every bound under its own start. An
accepted one adds its bound under the start that it declares. -/
theorem Declared.declare {nesting : Nesting} (declared : nesting.Declared)
    (declaration : Declaration) : (nesting.declare declaration).Declared := by
  unfold Nesting.declare
  split
  · rename_i extended accepted
    obtain ⟨_, _, _, _, _, _, rfl⟩ := (bind_eq_ok_iff nesting extended declaration).mp accepted
    refine ⟨declared.root, declared.definitions, ?_⟩
    intro start bound
    rw [opened?, Dictionary.find?_insert]
    split
    · rename_i own
      rintro ⟨⟩
      exact own.symm
    · exact declared.keyed start bound
  · exact declared

/-- However bounds were declared, each stands under its own start. -/
theorem declared_declaredBy (declarations : List Declaration) :
    (declaredBy declarations).Declared := by
  have kept (nesting : Nesting) (declared : nesting.Declared) :
      (declarations.foldl Nesting.declare nesting).Declared := by
    induction declarations generalizing nesting with
    | nil => exact declared
    | cons declaration others inductionHypothesis =>
      exact inductionHypothesis _ (declared.declare declaration)
  exact kept {} ⟨rfl, rfl, by simp [opened?, Dictionary.find?, Dictionary.empty]⟩

/-! ## A bound between its two tokens -/

/-- The branch of a bound without contents: one empty element, where it has elements. -/
def hollow (bound : Bound) : Tree := .branch bound.name (bound.element.toList.map (.branch · []))

/-- A bound that is finished right behind its start is the hollow one. -/
theorem branch_start (bound : Bound) (opener : Option Token) :
    (Frame.start bound opener).branch false = hollow bound := by
  cases element : bound.element <;>
    simp [Frame.branch, Frame.next, Frame.start, Frame.node, Frame.elementNode, hollow, element]

/-- A bound whose closing token starts no bound is built from its two tokens. -/
theorem build_pair_of_unopened {nesting : Nesting} (declared : nesting.Declared) {bound : Bound}
    {opener closer : Token} (opens : nesting.opened? opener.value = some bound)
    (closes : closer.value = bound.closing) (unopened : nesting.opened? closer.value = none) :
    nesting.build [opener, closer] = { value := .branch "global" [hollow bound] } := by
  rw [build_of_undefined declared.definitions, buildWith, declared.root]
  simp only [List.foldl_cons, List.foldl_nil]
  rw [Building.take_start opens, Building.take_closing unopened (by simp) closes.symm,
    Building.close_none rfl rfl, branch_start]
  simp [Building.finish, Frame.branch, Frame.start, Frame.push, Frame.node]

/-- A bound whose closing token starts a bound is not closed by it: both are reported as
incomplete, the inner one first. -/
theorem build_pair_of_opened {nesting : Nesting} (declared : nesting.Declared)
    {bound inner : Bound} {opener closer : Token}
    (opens : nesting.opened? opener.value = some bound)
    (reopens : nesting.opened? closer.value = some inner) :
    (nesting.build [opener, closer]).diagnostics =
      [(Problem.incompleteBound inner.start inner.closing).diagnose closer,
        (Problem.incompleteBound bound.start bound.closing).diagnose opener] := by
  rw [build_of_undefined declared.definitions, buildWith]
  simp only [List.foldl_cons, List.foldl_nil]
  rw [Building.take_start opens, Building.take_start reopens]
  simp [Building.finish, Frame.start, Ledger.report]

/-- After any declarations, accepted or refused, the two tokens of a declared bound are built
into its branch under the root without a report exactly when the closing token starts no
declared bound. -/
theorem build_pair_iff (declarations : List Declaration) (bound : Bound)
    (member : bound ∈ (declaredBy declarations).bounds.values) (opener closer : Token)
    (opens : opener.value = bound.start) (closes : closer.value = bound.closing) :
    (((declaredBy declarations).build [opener, closer]).diagnostics = [] ∧
        ((declaredBy declarations).build [opener, closer]).value =
          .branch "global" [hollow bound]) ↔
      (declaredBy declarations).opened? bound.closing = none := by
  have declared := declared_declaredBy declarations
  obtain ⟨start, found⟩ := (Dictionary.mem_values_iff _ bound).mp member
  have opened : (declaredBy declarations).opened? opener.value = some bound := by
    rw [opens, declared.keyed start bound found]
    exact found
  rw [← closes]
  constructor
  · rintro ⟨silent, _⟩
    cases reopens : (declaredBy declarations).opened? closer.value with
    | none => rfl
    | some inner =>
      rw [build_pair_of_opened declared opened reopens] at silent
      cases silent
  · intro unopened
    rw [build_pair_of_unopened declared opened closes unopened]
    exact ⟨rfl, rfl⟩

/-- Angle brackets, and a second bound that starts with the closing one. -/
def crossed : List Declaration :=
  [{ name := "angle", start := "<", closing := ">" },
    { name := "rest", start := ">", closing := "|" }]

/-- Both bounds are accepted. The second can be closed, and the first cannot. What the criterion for
pairs demands is checked for each of them. -/
theorem crossed_pairs :
    ∃ angle rest, (declaredBy crossed).bounds.values = [angle, rest] ∧
      ((declaredBy crossed).build [{ value := ">" }, { value := "|" }]).value =
        .branch "global" [hollow rest] ∧
      ¬ (((declaredBy crossed).build [{ value := "<" }, { value := ">" }]).diagnostics = [] ∧
        ((declaredBy crossed).build [{ value := "<" }, { value := ">" }]).value =
          .branch "global" [hollow angle]) := by
  have values : (declaredBy crossed).bounds.values =
      [{ name := "angle", start := "<", closing := ">" },
        { name := "rest", start := ">", closing := "|" }] := by
    decide
  refine ⟨_, _, values, ?_, ?_⟩
  · have closed := (build_pair_iff crossed { name := "rest", start := ">", closing := "|" }
      (by simp [values]) { value := ">" } { value := "|" } rfl rfl).mpr (by decide)
    exact closed.2
  · intro closed
    have unopened := (build_pair_iff crossed { name := "angle", start := "<", closing := ">" }
      (by simp [values]) { value := "<" } { value := ">" } rfl rfl).mp closed
    exact absurd unopened (by decide)

end Nesting

end Parlance
