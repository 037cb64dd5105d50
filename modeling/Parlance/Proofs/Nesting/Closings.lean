import Parlance.Proofs.Nesting.Faults

/-!
# Closing tokens in a table of their own

A nesting finds the bound that a token closes by going through its bounds. Instead of this, a
second table can be kept beside the bounds, with the start of a bound under its closing token.
A declaration then asks both tables before it enters the bound in both, and a token that closes
nothing is looked up in the second table.

The second table is the inverse of the first one: a start stands under a closing token exactly
when the bound that begins with the start has this closing token. Every change of the nesting
keeps this, also when it is refused. A declaration that is accepted needs that no bound had its
start or its closing token, since an entry of either table would be lost otherwise, and a flag
must leave the two tokens of its bound alone.

So a nesting with two tables is set up as the nesting without the second one, with the same
outcome of every declaration, and it builds the same tree with the same reports.
-/

namespace Parlance

namespace Nesting

/-- A nesting with the starts of its bounds under their closing tokens. -/
structure Indexed where
  nesting : Nesting := {}
  closings : Dictionary String := .empty

namespace Indexed

/-- Add a bound to both tables. The bound that has the closing token already is named through
its start. -/
def bind (indexed : Indexed) (name start closing element : String) (split : Option String) :
    Except ConfigError Indexed :=
  if start.isEmpty then .error (.emptyBoundToken name .start)
  else if closing.isEmpty then .error (.emptyBoundToken name .closing)
  else if start = closing then .error (.selfClosingBound name start)
  else if indexed.nesting.bounds.contains start then .error (.duplicateBound start)
  else match indexed.closings.find? closing with
    | some holder =>
      let other := (indexed.nesting.opened? holder).map (·.name)
      .error (.duplicateBoundEnd name closing (other.getD ""))
    | none =>
      if (split.bind nonempty).isSome && element.isEmpty then .error (.splitWithoutElement name)
      else
        let bound : Bound :=
          { name, start, closing, element := nonempty element, split := split.bind nonempty }
        .ok {
          nesting :=
            { indexed.nesting with bounds := indexed.nesting.bounds.insert start bound }
          closings := indexed.closings.insert closing start }

/-- Both tables after a change. Only a bound that is accepted changes the table of closing
tokens. -/
def adjust (indexed : Indexed) : Setting → Indexed
  | .bound declaration =>
    match indexed.bind declaration.name declaration.start declaration.closing
        declaration.element declaration.split with
    | .ok extended => extended
    | .error _ => indexed
  | setting => { indexed with nesting := indexed.nesting.adjust setting }

/-- New tables after changes. -/
def adjustedBy (settings : List Setting) : Indexed := settings.foldl adjust {}

/-- Take one token, with a closing token that closes nothing looked up in its table. -/
def take {σ : Type} (indexed : Indexed) (hook : NodeHook σ) (building : Building σ)
    (token : Token) : Building σ :=
  match indexed.nesting.opened? token.value with
  | some bound =>
    { building with top := .start bound (some token), outer := building.top :: building.outer }
  | none =>
    if !building.outer.isEmpty && building.top.bound.closing = token.value then
      building.close hook
    else if building.top.isSplitBy token.value then
      let (top, ledger) := building.top.split hook building.ledger
      { building with top, ledger }
    else match indexed.closings.find? token.value with
      | some start =>
        let problem := Problem.mismatchedBounds start token.value
        { building with ledger := building.ledger.report (problem.diagnose token) }
      | none =>
        let (leaf, ledger) := building.ledger.visit hook (.leaf token)
        { building with top := building.top.push leaf, ledger }

/-- Build a tree from tokens with both tables. -/
def buildWith {σ : Type} (indexed : Indexed) (hook : NodeHook σ) (state : σ)
    (tokens : List Token) : Built σ :=
  let begun : Building σ :=
    { top := .start indexed.nesting.root none, outer := [], ledger := { state } }
  let filled := tokens.foldl (indexed.take hook) begun
  let (tree, ledger) := Building.finish hook filled.top filled.outer filled.ledger
  { value := tree, diagnostics := ledger.diagnostics, state := ledger.state }

/-! ## The two tables -/

/-- The bounds stand under their own starts and apart from each other, and the table of closing
tokens is the inverse of the table of bounds: it has a start under a closing token exactly when
the bound with this start has the closing token. -/
structure Inverse (indexed : Indexed) : Prop where
  paired : indexed.nesting.Paired
  inverse : ∀ closing start, indexed.closings.find? closing = some start ↔
    ∃ bound, indexed.nesting.opened? start = some bound ∧ bound.closing = closing

variable {indexed : Indexed}

/-- Looking a closing token up in its table finds the start of the bound that the token closes,
or nothing when it closes none. -/
theorem Inverse.find?_closings (inverse : indexed.Inverse) (value : String) :
    indexed.closings.find? value = (indexed.nesting.closed? value).map (·.start) := by
  cases closed : indexed.nesting.closed? value with
  | none =>
    have unclosed := (closed?_eq_none_iff indexed.nesting value).mp closed
    rw [Option.map_none, Option.eq_none_iff_forall_ne_some]
    intro start entered
    obtain ⟨bound, opened, closes⟩ := (inverse.inverse value start).mp entered
    exact unclosed start bound opened closes
  | some bound =>
    have closes : bound.closing = value := by simpa using List.find?_some closed
    obtain ⟨start, opened⟩ :=
      (Dictionary.mem_values_iff _ bound).mp (List.mem_of_find?_eq_some closed)
    have own : bound.start = start := inverse.paired.keyed start bound opened
    rw [Option.map_some, own]
    exact (inverse.inverse value start).mpr ⟨bound, opened, closes⟩

/-- The start of the bound that a token closes leads back to this bound. -/
theorem Inverse.opened?_of_closed? (inverse : indexed.Inverse) {value : String} {bound : Bound}
    (closed : indexed.nesting.closed? value = some bound) :
    indexed.nesting.opened? bound.start = some bound := by
  obtain ⟨start, opened⟩ :=
    (Dictionary.mem_values_iff _ bound).mp (List.mem_of_find?_eq_some closed)
  have own : bound.start = start := inverse.paired.keyed start bound opened
  rw [own]
  exact opened

/-- The bounds after a declaration are those of the nesting without the second table, and so is
the error of a declaration that is refused, with the name of the bound that is in the way. -/
theorem Inverse.bind_eq (inverse : indexed.Inverse) (name start closing element : String)
    (split : Option String) :
    (indexed.bind name start closing element split).map (·.nesting) =
      indexed.nesting.bind name start closing element split := by
  have looked := inverse.find?_closings closing
  unfold bind Nesting.bind
  cases closed : indexed.nesting.closed? closing with
  | none =>
    rw [closed, Option.map_none] at looked
    simp only [looked]
    repeat' split
    all_goals rfl
  | some bound =>
    have named := inverse.opened?_of_closed? closed
    rw [closed, Option.map_some] at looked
    simp only [looked, named, Option.map_some, Option.getD_some]
    repeat' split
    all_goals rfl

/-- A declaration that is accepted enters the start under the closing token, and changes no other
entry of the table. -/
theorem closings_of_bind {extended : Indexed} {name start closing element : String}
    {split : Option String}
    (accepted : indexed.bind name start closing element split = .ok extended) :
    extended.closings = indexed.closings.insert closing start := by
  unfold bind at accepted
  repeat' split at accepted
  all_goals cases accepted
  rfl

/-- Entering a bound in both tables keeps them inverse to each other. No bound had the start, so no
closing token loses its entry, and no bound had the closing token, so the new entry replaces
none. -/
theorem Inverse.find?_insert (inverse : indexed.Inverse) {entered : String} (added : Bound)
    (unopened : indexed.nesting.opened? entered = none)
    (unclosed : ∀ start bound, indexed.nesting.opened? start = some bound →
      bound.closing ≠ added.closing) (closing start : String) :
    (indexed.closings.insert added.closing entered).find? closing = some start ↔
      ∃ bound, (indexed.nesting.bounds.insert entered added).find? start = some bound ∧
        bound.closing = closing := by
  rw [Dictionary.find?_insert, Dictionary.find?_insert]
  by_cases ownClosing : closing = added.closing
  · subst ownClosing
    rw [if_pos rfl, Option.some_inj]
    constructor
    · rintro rfl
      exact ⟨added, if_pos rfl, rfl⟩
    · rintro ⟨bound, opened, closes⟩
      by_contra different
      rw [if_neg (Ne.symm different)] at opened
      exact unclosed start bound opened closes
  · rw [if_neg ownClosing, inverse.inverse]
    by_cases ownStart : start = entered
    · subst ownStart
      rw [if_pos rfl, unopened]
      constructor
      · rintro ⟨bound, opened, _⟩
        cases opened
      · rintro ⟨bound, opened, closes⟩
        obtain rfl := Option.some.inj opened
        exact absurd closes.symm ownClosing
    · rw [if_neg ownStart, ← opened?]

/-- An accepted declaration keeps the tables inverse to each other: it enters its bound in both,
after neither its start nor its closing token was found. -/
theorem Inverse.bind (inverse : indexed.Inverse) (declaration : Declaration) {extended : Indexed}
    (accepted : indexed.bind declaration.name declaration.start declaration.closing
      declaration.element declaration.split = .ok extended) : extended.Inverse := by
  have bounds : indexed.nesting.bind declaration.name declaration.start declaration.closing
      declaration.element declaration.split = .ok extended.nesting := by
    rw [← inverse.bind_eq, accepted]
    rfl
  have declared : indexed.nesting.declare declaration = extended.nesting := by
    rw [declare, bounds]
  obtain ⟨_, _, _, unopened, unclosed, _, same⟩ :=
    (bind_eq_ok_iff indexed.nesting extended.nesting declaration).mp bounds
  have apart := (closed?_eq_none_iff indexed.nesting _).mp unclosed
  constructor
  · rw [← declared]
    exact inverse.paired.declare declaration
  · intro closing start
    rw [closings_of_bind accepted, same]
    exact inverse.find?_insert declaration.bound unopened apart closing start

/-- A flag leaves the two tokens of its bound alone, and all other bounds. -/
theorem exists_opened?_setFlag (nesting : Nesting) (flagged : String) (on : Bool)
    (start closing : String) :
    (∃ bound, (nesting.setFlag flagged on).opened? start = some bound ∧ bound.closing = closing) ↔
      ∃ bound, nesting.opened? start = some bound ∧ bound.closing = closing := by
  unfold setFlag
  cases held : nesting.bounds.find? flagged with
  | none => rfl
  | some bound =>
    simp only [opened?, Dictionary.find?_insert]
    by_cases own : start = flagged
    · subst own
      simp [held]
    · simp only [if_neg own]

/-- Grouping the contents of the root changes no bound, whether it is accepted or refused. -/
theorem bounds_adjust_rootSplit (nesting : Nesting) (element : String) (split : Option String) :
    (nesting.adjust (.rootSplit element split)).bounds = nesting.bounds := by
  by_cases useless : (split.bind nonempty).isSome && element.isEmpty
  · simp [Nesting.adjust, setRootSplit, useless]
  · simp [Nesting.adjust, setRootSplit, useless]

/-- Every change leaves both tables inverse to each other, with the bounds of the nesting without
the second table. -/
theorem Inverse.adjust (inverse : indexed.Inverse) (setting : Setting) :
    (indexed.adjust setting).nesting = indexed.nesting.adjust setting ∧
      (indexed.adjust setting).Inverse := by
  have paired := inverse.paired.adjust setting
  cases setting with
  | bound declaration =>
    have alike := inverse.bind_eq declaration.name declaration.start declaration.closing
      declaration.element declaration.split
    rw [Indexed.adjust, Nesting.adjust, declare, ← alike]
    cases accepted : indexed.bind declaration.name declaration.start declaration.closing
        declaration.element declaration.split with
    | error refusal => exact ⟨rfl, inverse⟩
    | ok extended => exact ⟨rfl, inverse.bind declaration accepted⟩
  | flag start on =>
    refine ⟨rfl, paired, fun closing key => (inverse.inverse closing key).trans ?_⟩
    exact (exists_opened?_setFlag indexed.nesting start on key closing).symm
  | rootSplit element split =>
    refine ⟨rfl, paired, fun closing key => (inverse.inverse closing key).trans ?_⟩
    simp only [Indexed.adjust, opened?, bounds_adjust_rootSplit]
  | rootName name => exact ⟨rfl, paired, inverse.inverse⟩
  | rootFlag on => exact ⟨rfl, paired, inverse.inverse⟩
  | define name body => exact ⟨rfl, paired, inverse.inverse⟩
  | undefine name => exact ⟨rfl, paired, inverse.inverse⟩

/-- However a nesting is set up, with refused changes among the others, its second table is the
inverse of its bounds, and these are the bounds of the nesting without the second table. -/
theorem adjustedBy_inverse (settings : List Setting) :
    (adjustedBy settings).nesting = Nesting.adjustedBy settings ∧
      (adjustedBy settings).Inverse := by
  have kept (indexed : Indexed) (inverse : indexed.Inverse) :
      (settings.foldl adjust indexed).nesting = settings.foldl Nesting.adjust indexed.nesting ∧
        (settings.foldl adjust indexed).Inverse := by
    induction settings generalizing indexed with
    | nil => exact ⟨rfl, inverse⟩
    | cons setting settings inductionHypothesis =>
      obtain ⟨same, next⟩ := inverse.adjust setting
      rw [List.foldl_cons, List.foldl_cons, ← same]
      exact inductionHypothesis _ next
  have empty : ({} : Indexed).Inverse := by
    constructor
    · exact adjustedBy_paired []
    · intro closing start
      simp [Dictionary.find?, Dictionary.empty, opened?]
  exact kept {} empty

/-! ## What the tables are used for -/

/-- After any changes, a declaration has the same outcome with the second table: the same bounds,
or the same error. -/
theorem bind_adjustedBy (settings : List Setting) (name start closing element : String)
    (split : Option String) :
    ((adjustedBy settings).bind name start closing element split).map (·.nesting) =
      (Nesting.adjustedBy settings).bind name start closing element split := by
  obtain ⟨same, inverse⟩ := adjustedBy_inverse settings
  rw [inverse.bind_eq, same]

/-- A token is taken alike. The report of a closing token that closes nothing names the start
that is found in the table. -/
theorem Inverse.take_eq {σ : Type} (inverse : indexed.Inverse) (hook : NodeHook σ)
    (building : Building σ) (token : Token) :
    indexed.take hook building token = building.take indexed.nesting hook token := by
  unfold take Building.take
  rw [inverse.find?_closings]
  cases indexed.nesting.closed? token.value <;> rfl

/-- After any changes, building with the second table makes the same tree, with the same reports
and the same state of the hook. -/
theorem buildWith_adjustedBy {σ : Type} (settings : List Setting) (hook : NodeHook σ) (state : σ)
    (tokens : List Token) :
    (adjustedBy settings).buildWith hook state tokens =
      (Nesting.adjustedBy settings).buildWith hook state tokens := by
  obtain ⟨same, inverse⟩ := adjustedBy_inverse settings
  have taken : (adjustedBy settings).take hook =
      Building.take (Nesting.adjustedBy settings) hook := by
    funext building token
    rw [inverse.take_eq, same]
  rw [buildWith, Nesting.buildWith, taken, same]

end Indexed

end Nesting

end Parlance
