import Parlance.Expression.Resolve
import Parlance.Proofs.Dictionary

/-!
# Precedences in the order of declaration

An operator that is declared without a precedence gets the one that the counter shows. Every
declaration, with a precedence or without, moves the counter past the precedence that it gave,
and nothing moves it back, so the counter is above everything given before. The counter stops at
the largest precedence there is. Once that one was given, as it was written or by the counter,
an operator without a precedence gets it too, and binds as tightly as the other and no tighter.

A precedence that is written may be any number of 32 bits. It may repeat or fall below earlier
ones, and an operator may be declared again; what counts is what each declaration gave, not what
is still declared at the end.
-/

namespace Parlance.Expressions

/-- A number that a precedence may be. -/
def IsPrecedence (value : Int) : Prop := minPrecedence ≤ value ∧ value ≤ maxPrecedence

/-- Operators are declared one after the other before anything else is, and none is refused.
The list holds the precedences that were given, the latest first. Each is the one found under its
operator right after the declaration. -/
inductive Declares : Expressions → List Int → Prop where
  | new (names : NodeNames) (chain : Chain) (maxDepth : Nat) :
    Declares { names, chain, maxDepth } []
  | another {expressions next : Expressions} {given : List Int} {operator : String}
    {arity : Arity} {written : Option Int} {precedence : Int}
    (before : Declares expressions given)
    (ranged : ∀ value ∈ written, IsPrecedence value)
    (accepted : expressions.addOperator operator arity written = .ok next)
    (declared : next.operator? operator = some ⟨arity, precedence⟩) :
    Declares next (precedence :: given)

/-! ## One declaration -/

/-- An operator is refused only for having no name. What is accepted has the written precedence,
or that of the counter, and the counter moves past it. -/
theorem addOperator_eq_ok {expressions next : Expressions} {operator : String} {arity : Arity}
    {written : Option Int} (accepted : expressions.addOperator operator arity written = .ok next) :
    next.operator? operator = some ⟨arity, written.getD expressions.nextPrecedence⟩ ∧
      next.nextPrecedence = max expressions.nextPrecedence
        (min (written.getD expressions.nextPrecedence + 1) maxPrecedence) := by
  unfold addOperator at accepted
  split at accepted
  · cases accepted
  · cases accepted
    exact ⟨by simp [operator?, Dictionary.find?_insert], rfl⟩

/-- An operator with a name is always accepted. -/
theorem addOperator_of_named (expressions : Expressions) {operator : String}
    (named : operator ≠ "") (arity : Arity) (written : Option Int) :
    ∃ next, expressions.addOperator operator arity written = .ok next := by
  have filled : ¬ operator.isEmpty = true := by simpa using named
  exact ⟨_, by rw [addOperator, if_neg filled]⟩

/-! ## The counter -/

/-- The counter is a precedence above all that were given, and stops at the largest one. -/
structure Leads (counter : Int) (given : List Int) : Prop where
  ranged : IsPrecedence counter
  bounded : ∀ earlier ∈ given, earlier ≤ maxPrecedence
  above : ∀ earlier ∈ given, earlier < maxPrecedence → earlier < counter
  stopped : maxPrecedence ∈ given → counter = maxPrecedence

/-- Whatever precedence is given next, the counter leads again when it has moved past it. It is no
smaller than before, and greater than the precedence unless that is the largest one there is. -/
theorem Leads.give {counter precedence : Int} {given : List Int} (leads : Leads counter given)
    (valid : IsPrecedence precedence) :
    Leads (max counter (min (precedence + 1) maxPrecedence)) (precedence :: given) := by
  obtain ⟨⟨least, most⟩, bounded, above, stopped⟩ := leads
  obtain ⟨_, atMost⟩ := valid
  constructor
  · exact ⟨by omega, by omega⟩
  · intro earlier member
    rcases List.mem_cons.mp member with rfl | before
    · exact atMost
    · exact bounded earlier before
  · intro earlier member below
    rcases List.mem_cons.mp member with rfl | before
    · omega
    · have := above earlier before below
      omega
  · intro member
    rcases List.mem_cons.mp member with rfl | before
    · omega
    · have := stopped before
      omega

/-- After any declarations the counter leads what they gave. By induction over the declarations:
each of them gives the precedence that is written or, without one, the counter itself. -/
theorem Declares.leads {expressions : Expressions} {given : List Int}
    (declares : Declares expressions given) : Leads expressions.nextPrecedence given := by
  induction declares with
  | new _ _ _ =>
    have zero : IsPrecedence 0 := ⟨by decide, by decide⟩
    exact ⟨zero, by simp, by simp, by simp⟩
  | @another expressions next given operator arity written precedence _ ranged accepted declared
      inductionHypothesis =>
    obtain ⟨found, moved⟩ := addOperator_eq_ok accepted
    have gave : written.getD expressions.nextPrecedence = precedence := by
      rw [found] at declared
      cases declared
      rfl
    have valid : IsPrecedence precedence := by
      rw [← gave]
      cases written with
      | none => exact inductionHypothesis.ranged
      | some value => exact ranged value rfl
    rw [moved, gave]
    exact inductionHypothesis.give valid

/-- Whatever was declared before, an operator without a precedence is accepted, and gets a
precedence that none given before exceeds. It is above all of them exactly when the largest
precedence is not among them. -/
theorem unwritten_tighter_iff {expressions : Expressions} {given : List Int}
    (declares : Declares expressions given) {operator : String} (named : operator ≠ "")
    (arity : Arity) :
    ∃ next precedence, expressions.addOperator operator arity none = .ok next ∧
      next.operator? operator = some ⟨arity, precedence⟩ ∧ IsPrecedence precedence ∧
      (∀ earlier ∈ given, earlier ≤ precedence) ∧
      ((∀ earlier ∈ given, earlier < precedence) ↔ maxPrecedence ∉ given) := by
  obtain ⟨next, accepted⟩ := expressions.addOperator_of_named named arity none
  obtain ⟨ranged, bounded, above, stopped⟩ := declares.leads
  refine ⟨next, expressions.nextPrecedence, accepted, (addOperator_eq_ok accepted).1, ranged,
    ?_, ?_⟩
  · intro earlier member
    by_cases largest : earlier = maxPrecedence
    · subst largest
      exact Int.le_of_eq (stopped member).symm
    · have atMost := bounded earlier member
      exact Int.le_of_lt (above earlier member (by omega))
  · constructor
    · intro tighter member
      have beyond := tighter maxPrecedence member
      have most := ranged.2
      omega
    · intro absent earlier member
      apply above earlier member
      have atMost := bounded earlier member
      have different : earlier ≠ maxPrecedence := by
        rintro rfl
        exact absent member
      omega

/-- A sum that binds as tightly as an operator can. -/
def tightestSum : Expressions where
  operators := .ofList [("+", ⟨.binary, maxPrecedence⟩)]
  nextPrecedence := maxPrecedence

/-- The run `1 + 2 * 3`. -/
def sumAndProduct : Tree :=
  .branch "line" [.leaf (.bare "1" .integerLiteral), .leaf (.bare "+" .deliminator),
    .leaf (.bare "2" .integerLiteral), .leaf (.bare "*" .deliminator),
    .leaf (.bare "3" .integerLiteral)]

/-- A product that is declared behind it binds no tighter, so the sum is taken first. Its precedence
has to be the largest one as well, since no larger one is left. -/
theorem tightestSum_product :
    Declares tightestSum [maxPrecedence] ∧
      ∃ next, tightestSum.addOperator "*" .binary none = .ok next ∧
        next.operator? "*" = some ⟨.binary, maxPrecedence⟩ ∧
        (next.resolve sumAndProduct).value.sketch =
          "(binary: (binary: '1' '+' '2') '*' '3')" := by
  have sum : addOperator {} "+" .binary (some maxPrecedence) = .ok tightestSum := rfl
  have ranged : ∀ value ∈ some maxPrecedence, IsPrecedence value := by
    rintro value ⟨⟩
    exact ⟨by decide, by decide⟩
  have declares : Declares tightestSum [maxPrecedence] :=
    .another (.new {} (.standard {}) defaultMaxDepth) ranged sum rfl
  obtain ⟨next, precedence, accepted, found, ⟨_, atMost⟩, atLeast, _⟩ :=
    unwritten_tighter_iff declares (by decide : "*" ≠ "") .binary
  have largest : precedence = maxPrecedence :=
    Int.le_antisymm atMost (atLeast maxPrecedence (List.mem_singleton.mpr rfl))
  have drawn : (match tightestSum.addOperator "*" .binary none with
      | .ok next => (next.resolve sumAndProduct).value.sketch
      | .error _ => "") = "(binary: (binary: '1' '+' '2') '*' '3')" := by
    decide +kernel
  rw [accepted] at drawn
  exact ⟨declares, next, accepted, largest ▸ found, drawn⟩

end Parlance.Expressions
