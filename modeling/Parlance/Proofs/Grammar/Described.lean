import Parlance.Grammar.Basic
import Parlance.Proofs.Nesting.Bounds

/-!
# What a document describes

A grammar is set up from a document step by step, and the first step that is refused ends
the work. Where all succeed, the parts of the grammar are what the steps leave behind: the
root of the nesting is the one in the document, with an empty element or separator taken for
none, and bounds change nothing of it. The nesting has no definitions, since those of a
document belong to the lexer.
-/

namespace Parlance.Grammar

/-! ## Steps that can be refused -/

/-- What two steps in turn give is what the second gives for the result of the first. -/
theorem bind_ok {α β : Type} {first : Except ConfigError α} {second : α → Except ConfigError β}
    {result : β} (succeeded : (first >>= second) = .ok result) :
    ∃ value, first = .ok value ∧ second value = .ok result := by
  cases first with
  | error _ => cases succeeded
  | ok value => exact ⟨value, rfl, succeeded⟩

/-- What each step leaves alone is the same after all of them. By induction over the items, as long
as each step succeeds. -/
theorem foldlM_keeps {α β γ : Type} (observe : α → γ) {step : α → β → Except ConfigError α}
    (kept : ∀ value item next, step value item = .ok next → observe next = observe value)
    {items : List β} {value last : α} (succeeded : items.foldlM step value = .ok last) :
    observe last = observe value := by
  induction items generalizing value with
  | nil =>
    cases succeeded
    rfl
  | cons item items inductionHypothesis =>
    obtain ⟨next, first, others⟩ := bind_ok succeeded
    rw [inductionHypothesis others, kept value item next first]

/-! ## The parts of a grammar -/

/-- The nesting of a grammar has the root and the bounds of the document. They are settled before
the expressions, which leave them as they are. -/
theorem ofSpec_nesting {spec : Spec} {grammar : Grammar} (described : ofSpec spec = .ok grammar) :
    ∃ base, baseNesting spec.root = .ok base ∧
      spec.bounds.foldlM addBound base = .ok grammar.nesting := by
  obtain ⟨lexer, _, nested⟩ := bind_ok described
  obtain ⟨base, root, extended⟩ := bind_ok nested
  obtain ⟨nesting, added, finished⟩ := bind_ok extended
  have same : grammar.nesting = nesting := by
    split at finished
    · cases finished
      rfl
    · obtain ⟨expressions, _, made⟩ := bind_ok finished
      cases made
      rfl
  exact ⟨base, root, same ▸ added⟩

/-- Where the document asks for expressions, the grammar resolves them in the regions that
the document names or leaves to the root. -/
theorem ofSpec_expressions {spec : Spec} {grammar : Grammar} {expression : ExpressionSpec}
    (described : ofSpec spec = .ok grammar) (asked : spec.expression = some expression) :
    ∃ expressions, grammar.expressions = some expressions ∧
      grammar.regions = regionsOf spec.root expression := by
  obtain ⟨lexer, _, nested⟩ := bind_ok described
  obtain ⟨base, _, extended⟩ := bind_ok nested
  obtain ⟨nesting, _, finished⟩ := bind_ok extended
  rw [asked] at finished
  obtain ⟨expressions, _, made⟩ := bind_ok finished
  cases made
  exact ⟨expressions, rfl, rfl⟩

/-- A bound changes nothing of a nesting but its bounds. The flag is set on the new bound, and all
else is as it was. -/
theorem addBound_eq {nesting extended : Nesting} {spec : BoundSpec}
    (added : addBound nesting spec = .ok extended) :
    extended = { nesting with bounds := extended.bounds } := by
  obtain ⟨inserted, accepted, flagged⟩ := bind_ok added
  cases flagged
  obtain ⟨_, _, _, _, _, _, rfl⟩ := (Nesting.bind_eq_ok_iff nesting inserted
    { name := spec.name, start := spec.start, closing := spec.closing
      element := spec.element.getD "", split := spec.split }).mp accepted
  rw [Nesting.setFlag]
  split <;> rfl

/-- The root of the nesting before any bounds is that of the document. Its name, its elements and
its flag are set one after the other, and no step touches what another one sets. -/
theorem baseNesting_eq {root : RootSpec} {nesting : Nesting}
    (described : baseNesting root = .ok nesting) :
    nesting = { root := { name := root.name, element := nonempty (root.element.getD ""),
                          split := root.split.bind nonempty,
                          endIsParentSplit := root.endIsParentSplit } } := by
  obtain ⟨grouped, divided, flagged⟩ := bind_ok described
  cases flagged
  unfold Nesting.setRootSplit at divided
  split at divided
  · cases divided
  · cases divided
    rfl

/-- The nesting that a document describes has no definitions. -/
theorem ofSpec_definitions {spec : Spec} {grammar : Grammar}
    (described : ofSpec spec = .ok grammar) : grammar.nesting.definitions = .empty := by
  obtain ⟨base, root, added⟩ := ofSpec_nesting described
  rw [foldlM_keeps (·.definitions) (fun _ _ _ extended => by rw [addBound_eq extended]) added,
    baseNesting_eq root]

/-- The root of the nesting that a document describes is that of the document. -/
theorem ofSpec_root {spec : Spec} {grammar : Grammar} (described : ofSpec spec = .ok grammar) :
    grammar.nesting.root =
      { name := spec.root.name, element := nonempty (spec.root.element.getD "")
        split := spec.root.split.bind nonempty
        endIsParentSplit := spec.root.endIsParentSplit } := by
  obtain ⟨base, root, added⟩ := ofSpec_nesting described
  rw [foldlM_keeps (·.root) (fun _ _ _ extended => by rw [addBound_eq extended]) added,
    baseNesting_eq root]

end Parlance.Grammar
