import Mathlib.Data.List.Forall2
import Parlance.Proofs.Nesting.Bounds
import Parlance.Proofs.Nesting.Brackets

/-!
# Which brackets are reported

A nesting reports exactly what the reader of its brackets is left with: first every closing
token that closed nothing, in the order of the text, and then every start whose bound is
still open, innermost first. A report names the two tokens of a declared bound. For a start
it is the bound that the token opens, and for a closing token the one bound that it would
close.

That there is only one such bound rests on how a nesting is set up. Each bound stands under
its own start, and no two bounds have one closing token; every change of a nesting keeps
this, whether it is accepted or refused.

Nothing is reported exactly when the tokens are well nested. This is said without a reader,
by the tokens themselves: every start has its closing token, with well nested tokens between
the two, and no other closing token occurs, unless it divides elements there.
-/

namespace Parlance

namespace Nesting

/-! ## Setting up a nesting -/

/-- A change of a nesting. -/
inductive Setting where
  | bound (declaration : Declaration)
  | flag (start : String) (on : Bool)
  | rootName (name : String)
  | rootSplit (element : String) (split : Option String)
  | rootFlag (on : Bool)
  | define (name : String) (body : Tree)
  | undefine (name : String)

/-- The nesting after a change. One that is refused changes nothing. -/
def adjust (nesting : Nesting) : Setting → Nesting
  | .bound declaration => nesting.declare declaration
  | .flag start on => nesting.setFlag start on
  | .rootName name => nesting.setRootName name
  | .rootSplit element split =>
    match nesting.setRootSplit element split with
    | .ok grouped => grouped
    | .error _ => nesting
  | .rootFlag on => nesting.setRootFlag on
  | .define name body => { nesting with definitions := nesting.definitions.insert name body }
  | .undefine name => { nesting with definitions := nesting.definitions.erase name }

/-- A new nesting after changes. -/
def adjustedBy (settings : List Setting) : Nesting := settings.foldl adjust {}

/-- Every bound stands under its own start, and no two have one closing token. -/
structure Paired (nesting : Nesting) : Prop where
  keyed : ∀ start bound, nesting.opened? start = some bound → bound.start = start
  apart : ∀ start other bound second, nesting.opened? start = some bound →
    nesting.opened? other = some second → bound.closing = second.closing → start = other

/-- A bound with a start and a closing token that no bound has keeps the bounds apart. A declaration
that is refused changes nothing, and one that is accepted adds the bound under its own start. -/
theorem Paired.declare {nesting : Nesting} (paired : nesting.Paired) (declaration : Declaration) :
    (nesting.declare declaration).Paired := by
  unfold Nesting.declare
  split
  · rename_i extended accepted
    obtain ⟨_, _, _, _, unclosed, _, rfl⟩ :=
      (bind_eq_ok_iff nesting extended declaration).mp accepted
    have closings := (closed?_eq_none_iff nesting _).mp unclosed
    have found (start : String) (bound : Bound)
        (opened : (nesting.bounds.insert declaration.start declaration.bound).find? start =
          some bound) :
        start = declaration.start ∧ bound = declaration.bound ∨
          nesting.opened? start = some bound := by
      rw [Dictionary.find?_insert] at opened
      split at opened
      · exact .inl ⟨‹_›, (Option.some.inj opened).symm⟩
      · exact .inr opened
    refine ⟨?_, ?_⟩
    · intro start bound opened
      rcases found start bound opened with ⟨rfl, rfl⟩ | earlier
      · rfl
      · exact paired.keyed start bound earlier
    · intro start other bound second opened otherOpened same
      rcases found start bound opened with ⟨rfl, rfl⟩ | earlier <;>
        rcases found other second otherOpened with ⟨rfl, rfl⟩ | otherEarlier
      · rfl
      · exact absurd same.symm (closings _ _ otherEarlier)
      · exact absurd same (closings _ _ earlier)
      · exact paired.apart _ _ _ _ earlier otherEarlier same
  · exact paired

/-- A flag changes no token of a bound: the bound is put back under the start where it was found. -/
theorem Paired.setFlag {nesting : Nesting} (paired : nesting.Paired) (start : String)
    (on : Bool) : (nesting.setFlag start on).Paired := by
  unfold Nesting.setFlag
  split
  · exact paired
  · rename_i flagged opened
    have found (key : String) (bound : Bound)
        (changed : (nesting.bounds.insert start { flagged with endIsParentSplit := on }).find? key =
          some bound) :
        ∃ earlier, nesting.opened? key = some earlier ∧ bound.start = earlier.start ∧
          bound.closing = earlier.closing := by
      rw [Dictionary.find?_insert] at changed
      split at changed
      · rename_i own
        cases changed
        exact ⟨flagged, own ▸ opened, rfl, rfl⟩
      · exact ⟨bound, changed, rfl, rfl⟩
    refine ⟨?_, ?_⟩
    · intro key bound changed
      obtain ⟨earlier, held, sameStart, _⟩ := found key bound changed
      exact sameStart.trans (paired.keyed key earlier held)
    · intro key other bound second changed otherChanged same
      obtain ⟨earlier, held, _, closing⟩ := found key bound changed
      obtain ⟨otherEarlier, otherHeld, _, otherClosing⟩ := found other second otherChanged
      exact paired.apart key other _ _ held otherHeld (closing ▸ otherClosing ▸ same)

/-- Every change of a nesting keeps its bounds apart. Only declarations and flags touch bounds at
all. -/
theorem Paired.adjust {nesting : Nesting} (paired : nesting.Paired) (setting : Setting) :
    (nesting.adjust setting).Paired := by
  cases setting with
  | bound declaration => exact paired.declare declaration
  | flag start on => exact paired.setFlag start on
  | rootName name => exact ⟨paired.keyed, paired.apart⟩
  | rootSplit element split =>
    simp only [Nesting.adjust, setRootSplit]
    split
    · rename_i grouped accepted
      split at accepted
      · cases accepted
      · cases accepted
        exact ⟨paired.keyed, paired.apart⟩
    · exact paired
  | rootFlag on => exact ⟨paired.keyed, paired.apart⟩
  | define name body => exact ⟨paired.keyed, paired.apart⟩
  | undefine name => exact ⟨paired.keyed, paired.apart⟩

/-- However a nesting was set up, its bounds are apart. -/
theorem adjustedBy_paired (settings : List Setting) : (adjustedBy settings).Paired := by
  have kept (nesting : Nesting) (paired : nesting.Paired) :
      (settings.foldl Nesting.adjust nesting).Paired := by
    induction settings generalizing nesting with
    | nil => exact paired
    | cons setting settings inductionHypothesis =>
      exact inductionHypothesis _ (paired.adjust setting)
  have empty (start : String) : ({} : Nesting).opened? start = none := rfl
  exact kept {} ⟨by simp [empty], by simp [empty]⟩

/-! ## What is reported -/

/-- The diagnostic reports a closing token that closed nothing, and names the two tokens of
the only declared bound that it closes. -/
def Mismatch (nesting : Nesting) (token : Token) (diagnostic : Diagnostic) : Prop :=
  ∃ bound ∈ nesting.bounds.values, bound.closing = token.value ∧
    (∀ other ∈ nesting.bounds.values, other.closing = token.value → other = bound) ∧
    diagnostic.id = "FK1001" ∧
    diagnostic = (Problem.mismatchedBounds bound.start bound.closing).diagnose token

/-- The diagnostic reports a start whose bound was not closed, and names the two tokens of
the bound. -/
def Incomplete (nesting : Nesting) (token : Token) (diagnostic : Diagnostic) : Prop :=
  ∃ bound, nesting.opened? token.value = some bound ∧ bound.start = token.value ∧
    diagnostic.id = "FK1002" ∧
    diagnostic = (Problem.incompleteBound bound.start bound.closing).diagnose token

/-- The bound that a closing token is found to close is the only one. Any other bound with the same
closing token would stand under the same start, and so be the same. -/
theorem Paired.mismatch {nesting : Nesting} (paired : nesting.Paired) {token : Token}
    {bound : Bound} (closed : nesting.closed? token.value = some bound) :
    nesting.Mismatch token
      ((Problem.mismatchedBounds bound.start token.value).diagnose token) := by
  have member := List.mem_of_find?_eq_some closed
  have closes : bound.closing = token.value := by simpa using List.find?_some closed
  refine ⟨bound, member, closes, ?_, rfl, by rw [closes]⟩
  intro other otherMember otherCloses
  obtain ⟨start, opened⟩ := (Dictionary.mem_values_iff _ _).mp member
  obtain ⟨otherStart, otherOpened⟩ := (Dictionary.mem_values_iff _ _).mp otherMember
  obtain rfl := paired.apart _ _ _ _ otherOpened opened (otherCloses.trans closes.symm)
  exact Option.some.inj (otherOpened.symm.trans opened)

end Nesting

namespace Building

variable {nesting : Nesting} {pending : List Token} {top : Frame} {outer : List Frame}

/-- One token is reported when it is a closing token that closes nothing. The report names the only
bound that the token closes, since no two bounds have one closing token. -/
theorem mismatch_take {building : Building Unit} {brackets : Brackets} (paired : nesting.Paired)
    (stacked : Stacked nesting brackets.pending (building.top :: building.outer))
    (reported : List.Forall₂ nesting.Mismatch brackets.broken building.ledger.diagnostics)
    (token : Token) :
    List.Forall₂ nesting.Mismatch (brackets.read nesting token).broken
      (building.take nesting .none token).ledger.diagnostics := by
  have taken := take_taken stacked token
  unfold Brackets.read
  generalize nesting.role (nesting.innermost? brackets.pending) token = role at taken ⊢
  generalize building.take nesting .none token = next at taken ⊢
  cases taken with
  | opens bound opened => exact reported
  | closes opener earlier parent around innermost outer unopened closes => exact reported
  | divides unopened divides => exact reported
  | stray bound unopened closed =>
    exact List.rel_append reported (.cons (paired.mismatch closed) .nil)
  | stands unopened undivided unclosed => exact reported

/-- All closing tokens that closed nothing are reported. By induction over the tokens, together with
what is known of the open bounds. -/
theorem mismatch_foldl_take {building : Building Unit} {brackets : Brackets}
    (paired : nesting.Paired)
    (stacked : Stacked nesting brackets.pending (building.top :: building.outer))
    (reported : List.Forall₂ nesting.Mismatch brackets.broken building.ledger.diagnostics)
    (tokens : List Token) :
    List.Forall₂ nesting.Mismatch (tokens.foldl (Brackets.read nesting) brackets).broken
      (tokens.foldl (Building.take nesting .none) building).ledger.diagnostics := by
  induction tokens generalizing building brackets with
  | nil => exact reported
  | cons token tokens inductionHypothesis =>
    exact inductionHypothesis (stacked.take token) (mismatch_take paired stacked reported token)

/-- At the end, the starts of the bounds still open are reported, innermost first. By induction over
the pending tokens: the report about each comes when its frame is finished, before those about the
frames around it. -/
theorem Stacked.finish (stacked : Stacked nesting pending (top :: outer))
    (paired : nesting.Paired) (ledger : Ledger Unit) :
    ∃ incompletes,
      (Building.finish .none top outer ledger).2.diagnostics =
        ledger.diagnostics ++ incompletes ∧
      List.Forall₂ nesting.Incomplete pending incompletes := by
  induction outer generalizing top pending ledger with
  | nil =>
    cases stacked with
    | root _ _ => exact ⟨[], by simp [Building.finish], .nil⟩
    | inner _ _ _ around => cases around
  | cons parent outer inductionHypothesis =>
    cases stacked with
    | @inner opener pending _ _ opened own leveled around =>
      let diagnostic :=
        (Problem.incompleteBound top.bound.start top.bound.closing).diagnose opener
      have pushed : Stacked nesting pending (parent.push (top.branch false) :: outer) :=
        around.replaceTop (by simp) (by simp) (by simp)
      obtain ⟨incompletes, reported, named⟩ :=
        inductionHypothesis pushed (ledger.report diagnostic)
      have incomplete : nesting.Incomplete opener diagnostic :=
        ⟨top.bound, opened, paired.keyed _ _ opened, rfl, rfl⟩
      refine ⟨diagnostic :: incompletes, ?_, .cons incomplete named⟩
      simpa [Building.finish, own, Ledger.report] using reported

end Building

namespace Nesting

/-! ## Well nested tokens -/

/-- The tokens are well nested inside a bound, or in the root. -/
inductive WellNested (nesting : Nesting) : Option Bound → List Token → Prop where
  | nil {inside : Option Bound} : WellNested nesting inside []
  /-- A token that neither opens nor closes a bound, and that is no closing token at all
  unless it divides the elements of the bound. -/
  | plain {inside : Option Bound} {token : Token} {tokens : List Token}
    (unopened : nesting.opened? token.value = none)
    (stays : ∀ bound, inside = some bound → bound.closing ≠ token.value)
    (harmless : nesting.closed? token.value = none ∨
      (inside.getD nesting.root).isSplitBy token.value)
    (rest : WellNested nesting inside tokens) : WellNested nesting inside (token :: tokens)
  /-- A start with its closing token, and well nested tokens between the two. -/
  | nested {inside : Option Bound} {opener closer : Token} {bound : Bound}
    {inner tokens : List Token} (opened : nesting.opened? opener.value = some bound)
    (content : WellNested nesting (some bound) inner)
    (unopened : nesting.opened? closer.value = none) (closes : bound.closing = closer.value)
    (rest : WellNested nesting inside tokens) :
    WellNested nesting inside (opener :: inner ++ closer :: tokens)

/-- What reading a token does, by what the token is at that point. -/
inductive Reads (nesting : Nesting) (brackets : Brackets) (token : Token) : Brackets → Prop where
  | opens (bound : Bound) (opened : nesting.opened? token.value = some bound) :
    Reads nesting brackets token { brackets with pending := token :: brackets.pending }
  | closes (bound : Bound) (unopened : nesting.opened? token.value = none)
    (inside : nesting.innermost? brackets.pending = some bound)
    (closes : bound.closing = token.value) :
    Reads nesting brackets token { brackets with pending := brackets.pending.tail }
  | plain (unopened : nesting.opened? token.value = none)
    (stays : ∀ bound, nesting.innermost? brackets.pending = some bound →
      bound.closing ≠ token.value)
    (harmless : nesting.closed? token.value = none ∨
      ((nesting.innermost? brackets.pending).getD nesting.root).isSplitBy token.value) :
    Reads nesting brackets token brackets
  | stray : Reads nesting brackets token { brackets with broken := brackets.broken ++ [token] }

/-- Reading a token always does one of these things, whatever was read before it. The cases are
taken in the order in which a reader tests for them. -/
theorem read_reads (nesting : Nesting) (brackets : Brackets) (token : Token) :
    Reads nesting brackets token (brackets.read nesting token) := by
  unfold Brackets.read role
  cases opened : nesting.opened? token.value with
  | some bound => exact .opens bound opened
  | none =>
    cases closes : (nesting.innermost? brackets.pending).any (·.closing = token.value) with
    | true =>
      cases inside : nesting.innermost? brackets.pending with
      | none => simp [inside] at closes
      | some bound => exact .closes bound opened inside (by simpa [inside] using closes)
    | false =>
      have stays (bound : Bound) (inside : nesting.innermost? brackets.pending = some bound) :
          bound.closing ≠ token.value := by
        simpa [inside] using closes
      cases divides :
          ((nesting.innermost? brackets.pending).getD nesting.root).isSplitBy token.value with
      | true => exact .plain opened stays (.inr divides)
      | false =>
        cases closed : nesting.closed? token.value with
        | some bound => exact .stray
        | none => exact .plain opened stays (.inl closed)

variable {nesting : Nesting} {brackets : Brackets} {pending tokens : List Token}

/-- Well nested tokens leave the reader as it was. By induction over the nesting: what stands for
itself is passed over, and a start puts on the pile just what its closing token takes away. -/
theorem WellNested.foldl_read {inside : Option Bound} (nested : nesting.WellNested inside tokens)
    (around : nesting.innermost? brackets.pending = inside) :
    tokens.foldl (Brackets.read nesting) brackets = brackets := by
  induction nested generalizing brackets with
  | nil => rfl
  | @plain inside token tokens unopened stays harmless rest inductionHypothesis =>
    have unclosed : inside.any (·.closing = token.value) = false := by
      cases inside with
      | none => rfl
      | some bound => simpa using stays bound rfl
    have read : brackets.read nesting token = brackets := by
      rcases harmless with closed | divides
      · cases divides : (inside.getD nesting.root).isSplitBy token.value <;>
          simp [Brackets.read, role, around, unopened, unclosed, closed, divides]
      · simp [Brackets.read, role, around, unopened, unclosed, divides]
    rw [List.foldl_cons, read, inductionHypothesis around]
  | @nested inside opener closer bound inner tokens opened content unopened closes rest
      contentHypothesis restHypothesis =>
    have opening : brackets.read nesting opener =
        { brackets with pending := opener :: brackets.pending } := by
      simp [Brackets.read, role, opened]
    have within : nesting.innermost? (opener :: brackets.pending) = some bound := opened
    have closing : Brackets.read nesting { brackets with pending := opener :: brackets.pending }
        closer = brackets := by
      simp [Brackets.read, role, within, unopened, closes]
    rw [List.cons_append, List.foldl_cons, opening, List.foldl_append, contentHypothesis within,
      List.foldl_cons, closing, restHypothesis around]

/-- Tokens that close the pending bounds in turn, innermost first, and are well nested
before, between and behind their closing tokens. -/
def Completes (nesting : Nesting) : List Token → List Token → Prop
  | [], tokens => nesting.WellNested none tokens
  | opener :: pending, tokens =>
    ∃ bound inner closer rest, tokens = inner ++ closer :: rest ∧
      nesting.opened? opener.value = some bound ∧ nesting.WellNested (some bound) inner ∧
      nesting.opened? closer.value = none ∧ bound.closing = closer.value ∧
      nesting.Completes pending rest

/-- What may stand before well nested tokens may stand before tokens that complete the
pending bounds. -/
theorem Completes.prepend (completes : nesting.Completes pending tokens) (front : List Token)
    (nests : ∀ inner, nesting.WellNested (nesting.innermost? pending) inner →
      nesting.WellNested (nesting.innermost? pending) (front ++ inner)) :
    nesting.Completes pending (front ++ tokens) := by
  cases pending with
  | nil => exact nests tokens completes
  | cons opener pending =>
    obtain ⟨bound, inner, closer, rest, rfl, opened, content, closing⟩ := completes
    have within : nesting.innermost? (opener :: pending) = some bound := opened
    rw [within] at nests
    exact ⟨bound, front ++ inner, closer, rest, by simp, opened, nests inner content, closing⟩

/-- A broken token is not forgotten. By induction over the tokens, each of which adds itself at the
end or changes nothing. -/
theorem broken_prefix_foldl_read (nesting : Nesting) (brackets : Brackets) (tokens : List Token) :
    brackets.broken <+: (tokens.foldl (Brackets.read nesting) brackets).broken := by
  induction tokens generalizing brackets with
  | nil => exact List.prefix_rfl
  | cons token tokens inductionHypothesis =>
    have first : brackets.broken <+: (brackets.read nesting token).broken := by
      have reads := nesting.read_reads brackets token
      generalize brackets.read nesting token = next at reads ⊢
      cases reads with
      | opens _ _ => exact List.prefix_rfl
      | closes _ _ _ _ => exact List.prefix_rfl
      | plain _ _ _ => exact List.prefix_rfl
      | stray => exact List.prefix_append _ _
    exact first.trans (inductionHypothesis (brackets.read nesting token))

/-- Tokens after which no bound is open and none of which was broken complete the bounds
that were pending before them.

Proof: by induction on the tokens. A start becomes the opener of the first bound to be
completed behind it, and with that bound it is put before what completes the others. -/
theorem completes_of_foldl_read
    (closed : (tokens.foldl (Brackets.read nesting) brackets).pending = [])
    (unbroken : (tokens.foldl (Brackets.read nesting) brackets).broken = []) :
    nesting.Completes brackets.pending tokens := by
  induction tokens generalizing brackets with
  | nil =>
    rw [show brackets.pending = [] from closed]
    exact .nil
  | cons token tokens inductionHypothesis =>
    rw [List.foldl_cons] at closed unbroken
    have kept := nesting.broken_prefix_foldl_read (brackets.read nesting token) tokens
    rw [unbroken] at kept
    have reads := nesting.read_reads brackets token
    generalize brackets.read nesting token = next at reads kept closed unbroken
    cases reads with
    | opens bound opened =>
      obtain ⟨found, inner, closer, rest, rfl, foundOpened, content, unopened, closes, others⟩ :=
        inductionHypothesis closed unbroken
      have around := others.prepend (token :: inner ++ [closer]) fun _ nested => by
        simpa using WellNested.nested foundOpened content unopened closes nested
      simpa using around
    | closes bound unopened inside closes =>
      cases held : brackets.pending with
      | nil => simp [held, innermost?] at inside
      | cons opener pending =>
        have others := inductionHypothesis closed unbroken
        rw [held] at inside others
        exact ⟨bound, [], token, tokens, rfl, inside, .nil, unopened, closes, others⟩
    | plain unopened stays harmless =>
      exact (inductionHypothesis closed unbroken).prepend [token] fun _ nested =>
        .plain unopened stays harmless nested
    | stray => simp at kept

/-- The reader is left with nothing exactly when the tokens are well nested. -/
theorem brackets_eq_empty_iff (nesting : Nesting) (tokens : List Token) :
    (nesting.brackets tokens).pending = [] ∧ (nesting.brackets tokens).broken = [] ↔
      nesting.WellNested none tokens := by
  constructor
  · rintro ⟨closed, unbroken⟩
    exact completes_of_foldl_read closed unbroken
  · intro nested
    have kept : nesting.brackets tokens = {} := nested.foldl_read rfl
    simp [kept]

/-- However a nesting was set up, and whatever the tokens are: building reports each closing
token that closed nothing, in the order of the text, with the one bound that it closes, and
behind these each start whose bound was not closed, innermost first, with that bound.
Nothing is reported exactly when the tokens are well nested. -/
theorem buildWith_none_faults (settings : List Setting) (tokens : List Token) :
    (∃ mismatches incompletes,
      ((adjustedBy settings).buildWith .none () tokens).diagnostics = mismatches ++ incompletes ∧
        List.Forall₂ (adjustedBy settings).Mismatch
          ((adjustedBy settings).brackets tokens).broken mismatches ∧
        List.Forall₂ (adjustedBy settings).Incomplete
          ((adjustedBy settings).brackets tokens).pending incompletes) ∧
      (((adjustedBy settings).buildWith .none () tokens).diagnostics = [] ↔
        (adjustedBy settings).WellNested none tokens) := by
  have paired := adjustedBy_paired settings
  generalize adjustedBy settings = nesting at paired ⊢
  have mismatches : List.Forall₂ nesting.Mismatch (nesting.brackets tokens).broken
      (nesting.filled tokens).ledger.diagnostics :=
    Building.mismatch_foldl_take paired nesting.begun_stacked .nil tokens
  obtain ⟨incompletes, reported, named⟩ :=
    (nesting.filled_stacked tokens).finish paired (nesting.filled tokens).ledger
  have diagnostics : (nesting.buildWith .none () tokens).diagnostics =
      (nesting.filled tokens).ledger.diagnostics ++ incompletes := by
    rw [nesting.buildWith_none_eq tokens]
    exact reported
  refine ⟨⟨_, incompletes, diagnostics, mismatches, named⟩, ?_⟩
  have alike : (nesting.filled tokens).ledger.diagnostics = [] ↔
      (nesting.brackets tokens).broken = [] := by
    rw [← List.length_eq_zero_iff, ← mismatches.length_eq, List.length_eq_zero_iff]
  have completed : incompletes = [] ↔ (nesting.brackets tokens).pending = [] := by
    rw [← List.length_eq_zero_iff, ← named.length_eq, List.length_eq_zero_iff]
  rw [diagnostics, ← brackets_eq_empty_iff, List.append_eq_nil_iff, alike, completed, and_comm]

end Nesting

end Parlance
