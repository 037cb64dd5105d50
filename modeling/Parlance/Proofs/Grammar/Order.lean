import Parlance.Diagnostic.Report
import Parlance.Proofs.Grammar.Described

/-!
# The order of declarations

A document lists its rules and its bounds in some order, and each is checked against those
before it. The order is nevertheless without effect. A declaration is refused for what is
wrong with itself or for a token that another one has too, and having a token in common does
not depend on which of the two comes first. What is accepted is stored under its start, and
a dictionary does not remember the order in which its entries arrived.

So two neighbours can be exchanged, and with neighbours any order can be reached. Only which
error is reported for a document that is refused does depend on the order; nothing is said
about that.
-/

namespace Parlance.Grammar

/-- Where any two steps can be exchanged, all steps succeed with one result in every order. By
induction over the permutation, where the exchange of two neighbours is the only case with something
to be shown. -/
theorem foldlM_perm {α β : Type} {step : α → β → Except ConfigError α}
    (exchanged : ∀ value first second middle last, step value first = .ok middle →
      step middle second = .ok last →
      ∃ other, step value second = .ok other ∧ step other first = .ok last)
    {items reordered : List β} (permuted : items.Perm reordered) {value last : α}
    (succeeded : items.foldlM step value = .ok last) :
    reordered.foldlM step value = .ok last := by
  induction permuted generalizing value with
  | nil => exact succeeded
  | cons item _ inductionHypothesis =>
    obtain ⟨next, first, others⟩ := bind_ok succeeded
    rw [List.foldlM_cons, first]
    exact inductionHypothesis others
  | swap first second items =>
    obtain ⟨middle, secondDone, rest⟩ := bind_ok succeeded
    obtain ⟨next, firstDone, others⟩ := bind_ok rest
    obtain ⟨other, firstBefore, secondBehind⟩ := exchanged _ _ _ _ _ secondDone firstDone
    rw [List.foldlM_cons, firstBefore]
    change (second :: items).foldlM step other = .ok last
    rw [List.foldlM_cons, secondBehind]
    exact others
  | trans _ _ firstHypothesis secondHypothesis =>
    exact secondHypothesis (firstHypothesis succeeded)

/-! ## Rules -/

/-- The rule that is described, if its start pattern is not empty. -/
def ruleOf (spec : RuleSpec) (startNonempty : spec.start.toList ≠ []) : Rule where
  start := spec.start
  ending := Lexer.endingOf spec.ending
  escape := spec.escape
  filtered := spec.filtered
  startNonempty := startNonempty

/-- A rule is accepted exactly when its start pattern is not empty and no rule has it. It is
then stored under that pattern, and nothing else changes. -/
theorem addRule_eq_ok_iff (lexer extended : Lexer) (spec : RuleSpec) :
    addRule lexer spec = .ok extended ↔
      lexer.rules.find? spec.start = none ∧ ∃ startNonempty,
        extended = { lexer with
          rules := lexer.rules.insert spec.start (ruleOf spec startNonempty) } := by
  unfold addRule Lexer.deliminate
  by_cases empty : spec.start.toList = []
  · simp [empty, bind, Except.bind]
  · cases held : lexer.rules.find? spec.start with
    | some rule => simp [empty, Dictionary.contains, held, bind, Except.bind]
    | none =>
      simp [empty, Dictionary.contains, held, bind, Except.bind, pure, Except.pure,
        Lexer.changeRule, Dictionary.find?_insert, Dictionary.insert_insert, ruleOf, eq_comm]

/-- Two rules that are accepted one after the other are accepted the other way round too. They have
different patterns, since the second would have been refused otherwise, so neither stands in the way
of the other. -/
theorem addRule_exchanged (lexer : Lexer) (first second : RuleSpec) (middle last : Lexer)
    (firstAdded : addRule lexer first = .ok middle)
    (secondAdded : addRule middle second = .ok last) :
    ∃ other, addRule lexer second = .ok other ∧ addRule other first = .ok last := by
  obtain ⟨firstFree, firstNonempty, rfl⟩ := (addRule_eq_ok_iff _ _ _).mp firstAdded
  obtain ⟨secondFree, secondNonempty, rfl⟩ := (addRule_eq_ok_iff _ _ _).mp secondAdded
  rw [Dictionary.find?_insert] at secondFree
  split at secondFree
  · cases secondFree
  · rename_i different
    refine ⟨_, (addRule_eq_ok_iff _ _ _).mpr ⟨secondFree, secondNonempty, rfl⟩, ?_⟩
    rw [addRule_eq_ok_iff]
    refine ⟨?_, firstNonempty, ?_⟩
    · rw [Dictionary.find?_insert, if_neg (Ne.symm different), firstFree]
    · simp only
      rw [Dictionary.insert_comm _ (Ne.symm different)]

/-! ## Bounds -/

/-- The declaration of a described bound. -/
def declarationOf (spec : BoundSpec) : Nesting.Declaration where
  name := spec.name
  start := spec.start
  closing := spec.closing
  element := spec.element.getD ""
  split := spec.split

/-- The bound that is described. -/
def boundOf (spec : BoundSpec) : Bound :=
  { (declarationOf spec).bound with endIsParentSplit := spec.endIsParentSplit }

/-- Nothing is wrong with a described bound by itself. -/
def WellFormed (spec : BoundSpec) : Prop :=
  spec.start ≠ "" ∧ spec.closing ≠ "" ∧ spec.start ≠ spec.closing ∧
    ((boundOf spec).split.isSome → spec.element.getD "" ≠ "")

/-- A bound is accepted exactly when nothing is wrong with it by itself, no bound has its
start, and no bound has its closing token. It is then stored under its start, and nothing
else changes. -/
theorem addBound_eq_ok_iff (nesting extended : Nesting) (spec : BoundSpec) :
    addBound nesting spec = .ok extended ↔
      WellFormed spec ∧ nesting.opened? spec.start = none ∧
        nesting.closed? spec.closing = none ∧
        extended = { nesting with bounds := nesting.bounds.insert spec.start (boundOf spec) } := by
  have flagged : Nesting.setFlag
      { nesting with bounds := nesting.bounds.insert spec.start (declarationOf spec).bound }
      spec.start spec.endIsParentSplit =
        { nesting with bounds := nesting.bounds.insert spec.start (boundOf spec) } := by
    simp [Nesting.setFlag, Dictionary.find?_insert, Dictionary.insert_insert, boundOf]
  constructor
  · intro added
    obtain ⟨inserted, accepted, set⟩ := bind_ok added
    obtain ⟨noStart, noClosing, different, unopened, unclosed, divides, rfl⟩ :=
      (Nesting.bind_eq_ok_iff nesting inserted (declarationOf spec)).mp accepted
    cases set
    exact ⟨⟨noStart, noClosing, different, divides⟩, unopened, unclosed, flagged⟩
  · rintro ⟨⟨noStart, noClosing, different, divides⟩, unopened, unclosed, rfl⟩
    have accepted := (Nesting.bind_eq_ok_iff nesting _ (declarationOf spec)).mpr
      ⟨noStart, noClosing, different, unopened, unclosed, divides, rfl⟩
    have bound : nesting.bind spec.name spec.start spec.closing (spec.element.getD "") spec.split =
        .ok _ := accepted
    rw [addBound, bound]
    exact congrArg Except.ok flagged

/-- A token closes nothing after a bound was stored under a free start exactly when it did
not before and is not the closing token of that bound. -/
theorem closed?_insert_eq_none_iff {nesting : Nesting} {start : String} {bound : Bound}
    (free : nesting.opened? start = none) (value : String) :
    Nesting.closed? { nesting with bounds := nesting.bounds.insert start bound } value = none ↔
      nesting.closed? value = none ∧ bound.closing ≠ value := by
  simp only [Nesting.closed?_eq_none_iff, Nesting.opened?, Dictionary.find?_insert]
  constructor
  · intro unclosed
    refine ⟨fun other held found => ?_, unclosed start bound (if_pos rfl)⟩
    refine unclosed other held ?_
    rw [if_neg, found]
    rintro rfl
    rw [Nesting.opened?, found] at free
    cases free
  · rintro ⟨unclosed, different⟩ other held found
    split at found
    · cases found
      exact different
    · exact unclosed other held found

/-- Two bounds that are accepted one after the other are accepted the other way round too. They have
different starts and different closing tokens, since the second would have been refused otherwise,
so neither stands in the way of the other. -/
theorem addBound_exchanged (nesting : Nesting) (first second : BoundSpec) (middle last : Nesting)
    (firstAdded : addBound nesting first = .ok middle)
    (secondAdded : addBound middle second = .ok last) :
    ∃ other, addBound nesting second = .ok other ∧ addBound other first = .ok last := by
  obtain ⟨firstFormed, firstUnopened, firstUnclosed, rfl⟩ :=
    (addBound_eq_ok_iff _ _ _).mp firstAdded
  obtain ⟨secondFormed, secondUnopened, secondUnclosed, rfl⟩ :=
    (addBound_eq_ok_iff _ _ _).mp secondAdded
  rw [closed?_insert_eq_none_iff firstUnopened] at secondUnclosed
  rw [Nesting.opened?, Dictionary.find?_insert] at secondUnopened
  split at secondUnopened
  · cases secondUnopened
  · rename_i different
    have secondFirst := (addBound_eq_ok_iff nesting _ second).mpr
      ⟨secondFormed, secondUnopened, secondUnclosed.1, rfl⟩
    refine ⟨_, secondFirst, ?_⟩
    rw [addBound_eq_ok_iff]
    refine ⟨firstFormed, ?_, ?_, ?_⟩
    · rw [Nesting.opened?, Dictionary.find?_insert, if_neg (Ne.symm different)]
      exact firstUnopened
    · rw [closed?_insert_eq_none_iff secondUnopened]
      exact ⟨firstUnclosed, Ne.symm secondUnclosed.2⟩
    · simp only
      rw [Dictionary.insert_comm _ (Ne.symm different)]

/-! ## Documents -/

/-- Documents with the same declarations in another order describe the same grammar. Rules are added
to a lexer and bounds to a nesting, and in each of the two any two neighbours can be exchanged. -/
theorem ofSpec_of_perm (spec : Spec) {rules : List RuleSpec} {bounds : List BoundSpec}
    (sameRules : spec.rules.Perm rules) (sameBounds : spec.bounds.Perm bounds) {grammar : Grammar}
    (described : ofSpec spec = .ok grammar) :
    ofSpec { spec with rules, bounds } = .ok grammar := by
  obtain ⟨lexer, ruled, nested⟩ := bind_ok described
  obtain ⟨base, root, extended⟩ := bind_ok nested
  obtain ⟨nesting, bounded, finished⟩ := bind_ok extended
  have reruled : rules.foldlM addRule (baseLexer { spec with rules, bounds }) = .ok lexer :=
    foldlM_perm addRule_exchanged sameRules ruled
  have rebounded : bounds.foldlM addBound base = .ok nesting :=
    foldlM_perm addBound_exchanged sameBounds bounded
  rw [ofSpec, reruled]
  change (baseNesting spec.root >>= fun base => bounds.foldlM addBound base >>= _) = _
  rw [root]
  change (bounds.foldlM addBound base >>= _) = _
  rw [rebounded]
  exact finished

/-- A document with its rules and bounds in another order describes a grammar exactly when the
document itself does, and whatever text is run and whatever was reported before, both give the
same tree and add the same diagnostics. -/
theorem run_of_reordered (spec : Spec) (rules : List RuleSpec) (bounds : List BoundSpec)
    (sameRules : spec.rules.Perm rules) (sameBounds : spec.bounds.Perm bounds) :
    ((∃ grammar, ofSpec spec = .ok grammar) ↔
        ∃ grammar, ofSpec { spec with rules, bounds } = .ok grammar) ∧
      ∀ grammar reordered, ofSpec spec = .ok grammar →
        ofSpec { spec with rules, bounds } = .ok reordered →
        ∀ (text file : String) (report : Report),
          (grammar.run text file).tree = (reordered.run text file).tree ∧
            report.add (grammar.run text file).diagnostics =
              report.add (reordered.run text file).diagnostics := by
  refine ⟨⟨?_, ?_⟩, ?_⟩
  · rintro ⟨grammar, described⟩
    exact ⟨grammar, ofSpec_of_perm spec sameRules sameBounds described⟩
  · rintro ⟨grammar, described⟩
    exact ⟨grammar, ofSpec_of_perm { spec with rules, bounds } sameRules.symm sameBounds.symm
      described⟩
  · intro grammar reordered described redescribed text file report
    have same : Except.ok grammar = (Except.ok reordered : Except ConfigError Grammar) :=
      (ofSpec_of_perm spec sameRules sameBounds described).symm.trans redescribed
    cases same
    exact ⟨rfl, rfl⟩

/-- Lists and groups, where a doubled bracket is a token of its own. -/
def bracketed : Spec where
  rules := [{ start := " ", filtered := true }, { start := "[" }, { start := "[[" },
    { start := "]" }, { start := "(" }, { start := ")" }]
  bounds := [{ name := "list", start := "[", closing := "]" },
    { name := "group", start := "(", closing := ")", element := some "item" }]

/-- The same declarations from the last to the first. -/
def bracketedBackwards : Spec :=
  { bracketed with rules := bracketed.rules.reverse, bounds := bracketed.bounds.reverse }

/-- Both orders are accepted and give one tree, in which the doubled bracket is a leaf. The tree is
drawn for one order, and the general theorem says that the other order gives the same. -/
theorem bracketed_reordered :
    ∃ grammar reordered,
      ofSpec bracketed = .ok grammar ∧ ofSpec bracketedBackwards = .ok reordered ∧
      (grammar.run "[(a) [[ ]" "lists").tree = (reordered.run "[(a) [[ ]" "lists").tree ∧
      (reordered.run "[(a) [[ ]" "lists").tree.sketch =
        "(global: (list: (group: (item: 'a')) '[['))" := by
  have reversed := run_of_reordered bracketed bracketed.rules.reverse bracketed.bounds.reverse
    (List.reverse_perm _).symm (List.reverse_perm _).symm
  have drawn : (match ofSpec bracketed with
      | .ok grammar => (grammar.run "[(a) [[ ]" "lists").tree.sketch
      | .error _ => "") = "(global: (list: (group: (item: 'a')) '[['))" := by
    decide +kernel
  cases described : ofSpec bracketed with
  | error _ => simp [described] at drawn
  | ok grammar =>
    obtain ⟨reordered, redescribed⟩ := reversed.1.mp ⟨grammar, described⟩
    have alike := reversed.2 grammar reordered described redescribed "[(a) [[ ]" "lists" {}
    rw [described] at drawn
    exact ⟨grammar, reordered, rfl, redescribed, alike.1, alike.1 ▸ drawn⟩

end Parlance.Grammar
