import Parlance.Proofs.Expression.Run

/-!
# Tokens that expressions keep

A run that reports nothing keeps its tokens in their order, with one exception. A
wrapper with a single child that has no children of its own is read as an argument list
without arguments. A leaf has no children, so where the single child is a leaf and not
an element, its token is lost without a report. Nothing else is: the tokens of a tree
resolved without a report are all there exactly when no such argument list stands in
the tree, at any depth that runs are read from.
-/

namespace Parlance.Expressions

/-- A leaf stands by itself in the argument list of a call, in the run or in an element
of one of its wrappers. -/
inductive Swallows (expressions : Expressions) : List Tree → Prop where
  | here {callee lone : Token} {rest : List Tree}
      (symbol : expressions.classify callee = .symbol) :
      Swallows expressions
        (.leaf callee :: .branch expressions.names.expression [.leaf lone] :: rest)
  | inside {elements contents rest : List Tree}
      (element : .branch expressions.names.element contents ∈ elements)
      (deeper : Swallows expressions contents) :
      Swallows expressions (.branch expressions.names.expression elements :: rest)
  | later {first : Tree} {rest : List Tree} (behind : Swallows expressions rest) :
      Swallows expressions (first :: rest)

/-- A leaf stands by itself in an argument list in one of the elements. -/
def SwallowsIn (expressions : Expressions) (elements : List Tree) : Prop :=
  ∃ contents, .branch expressions.names.element contents ∈ elements ∧
    expressions.Swallows contents

/-- What is kept of the given tokens, in their order: all of them, unless some are
`lost`. -/
structure Remains (lost : Prop) (kept given : List Token) : Prop where
  sublist : kept.Sublist given
  complete_iff : kept = given ↔ ¬ lost

namespace Remains

variable {lost lostToo : Prop} {kept given keptToo givenToo : List Token}

/-- If nothing is lost, all tokens remain. -/
theorem all (tokens : List Token) (none : ¬ lost) : Remains lost tokens tokens :=
  ⟨.refl _, by simp [none]⟩

/-- What is lost may be said in another way. -/
theorem congr (remains : Remains lost kept given) (same : lost ↔ lostToo) :
    Remains lostToo kept given :=
  ⟨remains.sublist, by rw [remains.complete_iff, same]⟩

/-- Tokens are lost from two lists when they are lost from one of them: what is kept of
each is no longer than the list itself. -/
theorem append (first : Remains lost kept given) (second : Remains lostToo keptToo givenToo) :
    Remains (lost ∨ lostToo) (kept ++ keptToo) (given ++ givenToo) := by
  refine ⟨first.sublist.append second.sublist, ?_⟩
  rw [not_or, ← first.complete_iff, ← second.complete_iff]
  constructor
  · intro complete
    have lengths := congrArg List.length complete
    have shorter := first.sublist.length_le
    have shorterToo := second.sublist.length_le
    simp only [List.length_append] at lengths
    exact ⟨first.sublist.eq_of_length (by omega), second.sublist.eq_of_length (by omega)⟩
  · rintro ⟨rfl, rfl⟩
    rfl

end Remains

section

variable {expressions : Expressions} {elements contents rest : List Tree}

/-- An empty run loses no leaf. -/
theorem not_swallows_nil : ¬ expressions.Swallows [] := nofun

/-- A leaf that calls nothing loses no leaf itself, so that the rest of its run decides. -/
theorem swallows_leaf_iff {token : Token}
    (alone : expressions.classify token = .symbol →
      ∀ elements others, rest ≠ .branch expressions.names.expression elements :: others) :
    expressions.Swallows (.leaf token :: rest) ↔ expressions.Swallows rest := by
  refine ⟨fun swallows => ?_, .later⟩
  cases swallows with
  | here symbol => exact absurd rfl (alone symbol _ _)
  | later behind => exact behind

/-- A group loses a leaf when one of its elements does, and its run also when the rest of it
does. -/
theorem swallows_group_iff :
    expressions.Swallows (.branch expressions.names.expression elements :: rest) ↔
      expressions.SwallowsIn elements ∨ expressions.Swallows rest := by
  constructor
  · intro swallows
    cases swallows with
    | inside element deeper => exact .inl ⟨_, element, deeper⟩
    | later behind => exact .inr behind
  · rintro (⟨contents, element, deeper⟩ | behind)
    · exact .inside element deeper
    · exact .later behind

/-- A call loses the leaf that stands by itself in its wrapper. Its run also loses the leaves that
the elements of the wrapper and the rest of the run lose. -/
theorem swallows_call_iff {callee : Token} (symbol : expressions.classify callee = .symbol) :
    expressions.Swallows
        (.leaf callee :: .branch expressions.names.expression elements :: rest) ↔
      ((∃ lone, elements = [.leaf lone]) ∨ expressions.SwallowsIn elements) ∨
        expressions.Swallows rest := by
  rw [or_assoc, ← swallows_group_iff]
  constructor
  · intro swallows
    cases swallows with
    | here _ => exact .inl ⟨_, rfl⟩
    | later behind => exact .inr behind
  · rintro (⟨lone, rfl⟩ | behind)
    · exact .here symbol
    · exact .later behind

/-- Elements lose a leaf when the first one does or one of the others. -/
theorem swallowsIn_cons_iff :
    expressions.SwallowsIn (.branch expressions.names.element contents :: rest) ↔
      expressions.Swallows contents ∨ expressions.SwallowsIn rest := by
  simp [SwallowsIn, or_and_right, exists_or]

/-- A single element loses a leaf when its contents do. -/
theorem swallowsIn_singleton_iff :
    expressions.SwallowsIn [.branch expressions.names.element contents] ↔
      expressions.Swallows contents := by
  simp [SwallowsIn]

/-- An element without contents holds no argument list. -/
theorem not_swallowsIn_childless {name : String} :
    ¬ expressions.SwallowsIn [.branch name []] := by
  rintro ⟨contents, element, swallows⟩
  obtain ⟨-, rfl⟩ := Tree.branch.inj (List.mem_singleton.mp element)
  exact not_swallows_nil swallows

end

/-- A leaf about which nothing is reported contributes its token. -/
theorem leafStep_leaves (expressions : Expressions) (token : Token)
    (silent : (expressions.leafStep token).diagnostics = []) :
    (expressions.leafStep token).part.leaves = [token] := by
  cases kind : expressions.classify token <;>
    simp_all [leafStep, leafPart, Part.leaves, Tree.leaves]

/-- A group about which nothing is reported is the expression of its only element. All other shapes
of a group are reported: no element, several of them, one of another name, and an empty one. -/
theorem group_silent (expressions : Expressions) (depth : Nat) (seen : Option Token)
    (elements : List Tree) (silent : (expressions.group depth seen elements).diagnostics = []) :
    ∃ place contents, elements = [.branch expressions.names.element contents] ∧
      expressions.group depth seen elements =
        expressions.assemble (some place)
          (expressions.steps (depth + 1) (some place) contents) := by
  revert silent
  unfold group
  split
  · rename_i inner contents
    split
    · rename_i element
      simp only [Bool.and_eq_true, decide_eq_true_eq] at element
      split
      · simp
      · exact fun _ => ⟨_, contents, by rw [element.1], rfl⟩
    · simp
  · simp
  · simp

/-- A call about which nothing is reported keeps its callee and what its arguments keep,
but not the token of a leaf that stands by itself in their place. -/
theorem call_remains (expressions : Expressions) (depth : Nat) (callee : Token)
    (elements : List Tree) (silent : (expressions.call depth callee elements).diagnostics = [])
    (arguments : ∀ place, (expressions.arguments depth place elements).diagnostics = [] →
      Remains (expressions.SwallowsIn elements)
        (Tree.leavesAll (expressions.arguments depth place elements).value)
        (Tree.leavesAll elements)) :
    Remains ((∃ lone, elements = [.leaf lone]) ∨ expressions.SwallowsIn elements)
      (expressions.call depth callee elements).value.leaves
      (callee :: Tree.leavesAll elements) := by
  unfold call at silent ⊢
  simp only at silent ⊢
  split at silent
  · simp at silent
  rename_i shallow
  rw [if_neg shallow]
  split at silent
  · rename_i childless
    rw [if_pos childless]
    obtain ⟨only, rfl, noChildren⟩ := List.map_eq_singleton_iff.mp childless
    cases only with
    | leaf lone =>
      refine ⟨by simp [Tree.leaves, Tree.leavesAll], ?_⟩
      simp [Tree.leaves, Tree.leavesAll]
    | branch name children =>
      obtain rfl : children = [] := by simpa [Tree.isChildless, Tree.children] using noChildren
      refine .all _ ?_
      simp [not_swallowsIn_childless]
  · rename_i childful
    rw [if_neg childful]
    have given := arguments _ silent
    have noLone : ¬ ∃ lone, elements = [.leaf lone] := by
      rintro ⟨lone, rfl⟩
      exact childful rfl
    refine ((Remains.all [callee] noLone).append given).congr ?_
    rfl

/-- A run about which nothing is reported keeps what its steps keep. -/
theorem assemble_remains (expressions : Expressions) (seen : Option Token) (steps : List Step)
    {lost : Prop} {given : List Token}
    (silent : (expressions.assemble seen steps).diagnostics = [])
    (remain : (∀ step ∈ steps, step.diagnostics = []) →
      Remains lost (steps.flatMap (·.part.leaves)) given) :
    Remains lost (expressions.assemble seen steps).value.leaves given := by
  rw [expressions.assemble_leaves seen steps silent]
  exact remain ((expressions.assemble_silent_iff seen steps).mp silent).1

/-- Leaving out an argument that came to nothing loses no token. An empty argument has no leaves. -/
theorem leavesAll_unless_empty (argument : Tree) (others : List Tree) :
    Tree.leavesAll (if argument.isEmpty then others else argument :: others) =
      argument.leaves ++ Tree.leavesAll others := by
  split
  · rename_i empty
    have nothing : argument.leaves = [] := by
      unfold Tree.isEmpty at empty
      split at empty
      · rfl
      · simp at empty
    rw [nothing, List.nil_append]
  · rfl

mutual

/-- Steps about which nothing is reported contribute the tokens of the run in their
order, and all of them unless a leaf stands by itself in an argument list.

Proof: the induction follows the run. A leaf contributes itself; a group and the
arguments of a call contribute what their own runs leave, which is shorter than what
they were given as soon as one of them loses a token. -/
theorem steps_remain (expressions : Expressions) (depth : Nat) (seen : Option Token)
    (run : List Tree) (silent : ∀ step ∈ expressions.steps depth seen run, step.diagnostics = []) :
    Remains (expressions.Swallows run)
      ((expressions.steps depth seen run).flatMap (·.part.leaves)) (Tree.leavesAll run) := by
  match run with
  | [] =>
    rw [steps]
    exact .all _ not_swallows_nil
  | .branch name elements :: rest =>
    by_cases wrapper : name = expressions.names.expression
    · rw [wrapper, steps_group] at silent ⊢
      obtain ⟨about, silentBehind⟩ := List.forall_mem_cons.mp silent
      obtain ⟨place, contents, only, grouped⟩ :=
        expressions.group_silent depth seen elements about
      rw [grouped] at about ⊢
      have inner := expressions.assemble_remains _ _ about
        (expressions.steps_remain (depth + 1) (some place) contents)
      have behind := expressions.steps_remain depth _ rest silentBehind
      have lost : expressions.Swallows contents ∨ expressions.Swallows rest ↔
          expressions.Swallows (.branch expressions.names.expression elements :: rest) := by
        rw [swallows_group_iff, only, swallowsIn_singleton_iff]
      have both := (inner.append behind).congr lost
      simpa [only, Part.leaves, Tree.leavesAll, Tree.leaves] using both
    · obtain ⟨step, member, reported⟩ :=
        expressions.steps_stray depth seen name wrapper elements rest
      exact absurd (silent step member) reported
  | .leaf token :: rest =>
    by_cases called : expressions.classify token = .symbol ∧
        ∃ elements others, rest = .branch expressions.names.expression elements :: others
    · obtain ⟨symbol, elements, others, wrapped⟩ := called
      rw [wrapped, expressions.steps_call depth seen token symbol] at silent ⊢
      obtain ⟨about, silentBehind⟩ := List.forall_mem_cons.mp silent
      have inner := expressions.call_remains depth token elements about fun place =>
        expressions.arguments_remain depth place elements
      have behind := expressions.steps_remain depth (some token) others silentBehind
      have both := (inner.append behind).congr (swallows_call_iff symbol).symm
      simpa [Part.leaves, Tree.leavesAll, Tree.leaves] using both
    · have alone : expressions.classify token = .symbol →
          ∀ elements others, rest ≠ .branch expressions.names.expression elements :: others :=
        fun symbol elements others equal => called ⟨symbol, elements, others, equal⟩
      rw [expressions.steps_leaf depth seen token rest alone] at silent ⊢
      obtain ⟨about, silentBehind⟩ := List.forall_mem_cons.mp silent
      have behind := expressions.steps_remain depth (some token) rest silentBehind
      have kept := ((Remains.all [token] not_false).append behind).congr
        ((false_or _).to_iff.trans (swallows_leaf_iff alone).symm)
      simpa [expressions.leafStep_leaves token about, Tree.leavesAll, Tree.leaves] using kept
termination_by Tree.sizeAll run
decreasing_by all_goals simp_all only [Tree.sizeAll, Tree.size]; omega

/-- Arguments about which nothing is reported keep what their runs keep. Every one of them is an
element then, and a leaf is lost in it only where it stands by itself in an argument list. -/
theorem arguments_remain (expressions : Expressions) (depth : Nat) (place : Token)
    (elements : List Tree)
    (silent : (expressions.arguments depth place elements).diagnostics = []) :
    Remains (expressions.SwallowsIn elements)
      (Tree.leavesAll (expressions.arguments depth place elements).value)
      (Tree.leavesAll elements) := by
  match elements with
  | [] =>
    rw [arguments]
    exact .all _ (by simp [SwallowsIn])
  | .leaf _ :: rest =>
    rw [arguments] at silent
    simp at silent
  | .branch name contents :: rest =>
    rw [arguments] at silent ⊢
    simp only at silent ⊢
    split at silent
    · rename_i element
      rw [if_pos element]
      obtain ⟨rfl, -⟩ : name = expressions.names.element ∧ _ := by simpa using element
      obtain ⟨about, others⟩ := List.append_eq_nil_iff.mp silent
      have first := expressions.assemble_remains _ _ about
        (expressions.steps_remain (depth + 1) (some place) contents)
      have behind := expressions.arguments_remain depth place rest others
      simp only [leavesAll_unless_empty]
      exact (first.append behind).congr swallowsIn_cons_iff.symm
    · simp at silent
termination_by Tree.sizeAll elements
decreasing_by all_goals simp only [Tree.sizeAll, Tree.size]; omega

end

/-- A tree resolved without a report keeps its tokens in their order, and all of them
exactly when no leaf stands by itself in the argument list of a call. -/
theorem resolve_complete_iff (expressions : Expressions) (tree : Tree)
    (silent : (expressions.resolve tree).diagnostics = []) :
    (expressions.resolve tree).value.leaves.Sublist tree.leaves ∧
      ((expressions.resolve tree).value.leaves = tree.leaves ↔
        ¬ expressions.Swallows (runOf tree)) := by
  rw [resolve_eq] at silent ⊢
  rw [← leavesAll_runOf tree]
  have remains := expressions.assemble_remains none _ silent
    (expressions.steps_remain 0 none (runOf tree))
  exact ⟨remains.sublist, remains.complete_iff⟩

/-- A call whose wrapper holds a leaf and no element. -/
def loneArgument : Tree :=
  .branch "line" [.leaf { value := "f" }, .branch "expression" [.leaf { value := "x" }]]

/-- The token of the lone leaf is lost without a report. -/
theorem loneArgument_incomplete :
    (resolve {} loneArgument).diagnostics = [] ∧
      (resolve {} loneArgument).value.leaves ≠ loneArgument.leaves := by
  have silent : (resolve {} loneArgument).diagnostics = [] := by decide +kernel
  have lone : Swallows {} (runOf loneArgument) := .here (by decide +kernel)
  exact ⟨silent, fun complete => (resolve_complete_iff {} loneArgument silent).2.mp complete lone⟩

end Parlance.Expressions
