import Parlance.Proofs.Nesting.Brackets

/-!
# Closing tokens that divide

The elements of a bound with the flag are also divided by the bounds that close inside it, as
long as these have contents. This is an abbreviation. A list of tokens in which the
separator is written out behind each such closing token is built into the same tree, with the
same reports, by the nesting without any flags.

Where a separator has to be written out depends on the tokens alone. A reader finds it by
remembering, for every open bound, whether its element in progress has contents. A separator
that was written out counts here like any other: a bound whose last element was ended by a
closing token has no contents in progress when it is closed itself, and divides nothing. The
reader is compared with the frames of a building token by token.

The flagged bounds need a separator that can be written: it is the start of no bound, since it
would open that one instead, and not the closing token of its own bound.
-/

namespace Parlance

/-- The bound without its flag. -/
def Bound.unflagged (bound : Bound) : Bound := { bound with endIsParentSplit := false }

/-- An open bound, and whether it is filled: whether its element in progress, or the bound
itself without an element level, has contents. -/
structure OpenBound where
  bound : Bound
  filled : Bool := false
deriving DecidableEq, Repr

/-- The open bounds, the innermost one and those around it from the inside out. The last one is
the root. -/
structure OpenBounds where
  top : OpenBound
  outer : List OpenBound := []
deriving DecidableEq, Repr

namespace OpenBounds

/-- The innermost open bound, absent when only the root is open. -/
def inside? (openBounds : OpenBounds) : Option Bound :=
  if openBounds.outer.isEmpty then none else some openBounds.top.bound

/-- The innermost open bound is closed: it is part of the contents of the one around it, unless
it ends the element that it is in. -/
def close (openBounds : OpenBounds) : OpenBounds :=
  match openBounds.outer with
  | [] => openBounds
  | parent :: outer =>
    { top := { parent with filled := !(openBounds.top.filled && parent.bound.endIsParentSplit) }
      outer }

/-- Read one more token. -/
def read (nesting : Nesting) (openBounds : OpenBounds) (token : Token) : OpenBounds :=
  match nesting.role openBounds.inside? token with
  | .opens =>
    { top := { bound := (nesting.opened? token.value).getD nesting.root }
      outer := openBounds.top :: openBounds.outer }
  | .closes => openBounds.close
  | .divides => { openBounds with top := { openBounds.top with filled := false } }
  | .stray => openBounds
  | .stands => { openBounds with top := { openBounds.top with filled := true } }

/-- The separator that a token stands for besides closing a bound: the one of the bound around
it, when that bound has the flag and the closed bound is filled. -/
def due? (nesting : Nesting) (openBounds : OpenBounds) (token : Token) : Option String :=
  match nesting.role openBounds.inside? token, openBounds.outer with
  | .closes, parent :: _ =>
    if openBounds.top.filled && parent.bound.endIsParentSplit then parent.bound.split else none
  | _, _ => none

end OpenBounds

namespace Nesting

/-- The nesting without any flags. -/
def unflagged (nesting : Nesting) : Nesting :=
  { nesting with
    root := nesting.root.unflagged
    bounds := nesting.bounds.map Bound.unflagged }

/-- The tokens with the separators written out for which closing tokens stand. Only the text of
such a separator is given; the rest of it is what `mark` makes of the closing token. -/
def writtenOut (nesting : Nesting) (mark : Token → Token) (openBounds : OpenBounds) :
    List Token → List Token
  | [] => []
  | token :: tokens =>
    token :: (openBounds.due? nesting token).toList.map (fun separator =>
        { mark token with value := separator }) ++
      nesting.writtenOut mark (openBounds.read nesting token) tokens

/-- Every flagged bound, the root included, has elements and a separator that is neither the
start of a bound nor the closing token of the bound itself. -/
def SeparatorsWritable (nesting : Nesting) : Prop :=
  ∀ bound, bound = nesting.root ∨ bound ∈ nesting.bounds.values → bound.endIsParentSplit →
    bound.element.isSome ∧ ∃ separator, bound.split = some separator ∧
      nesting.opened? separator = none ∧ separator ≠ bound.closing

/-- Flags do not matter for what a token opens: it is the same bound without its flag. -/
@[simp] theorem opened?_unflagged (nesting : Nesting) (value : String) :
    nesting.unflagged.opened? value = (nesting.opened? value).map Bound.unflagged :=
  Dictionary.find?_map _ _ _

/-- Flags do not matter for what a token closes either. -/
@[simp] theorem closed?_unflagged (nesting : Nesting) (value : String) :
    nesting.unflagged.closed? value = (nesting.closed? value).map Bound.unflagged := by
  rw [closed?, unflagged, Dictionary.values_map, List.find?_map]
  rfl

/-- The innermost open bound is found through its opener, so it is the same one without its flag. -/
theorem innermost?_unflagged (nesting : Nesting) (pending : List Token) :
    nesting.unflagged.innermost? pending = (nesting.innermost? pending).map Bound.unflagged := by
  cases pending <;> simp [innermost?]

/-- A flag does not change what a token is among brackets. Roles are told by starts, closing tokens
and separators, and flags are none of these. -/
theorem role_unflagged (nesting : Nesting) (inside : Option Bound) (token : Token) :
    nesting.unflagged.role (inside.map Bound.unflagged) token = nesting.role inside token := by
  have closes : (inside.map Bound.unflagged).any (·.closing = token.value) =
      inside.any (·.closing = token.value) := by
    cases inside <;> rfl
  have divides : ((inside.map Bound.unflagged).getD nesting.unflagged.root).isSplitBy token.value =
      (inside.getD nesting.root).isSplitBy token.value := by
    cases inside <;> rfl
  rw [role, role, closes, divides]
  simp

end Nesting

/-! ## Frames -/

namespace Frame

/-- The frame with its bound without the flag. -/
def unflagged (frame : Frame) : Frame := { frame with bound := frame.bound.unflagged }

/-- What a reader remembers of the frame. -/
def openBound (frame : Frame) : OpenBound := { bound := frame.bound, filled := frame.hasContents }

/-- A child is added to a frame without looking at the flag of its bound. -/
theorem push_unflagged (frame : Frame) (child : Tree) :
    (frame.push child).unflagged = frame.unflagged.push child := by
  cases current : frame.current <;> simp [push, unflagged, current]

/-- An element is finished without looking at the flag of the bound. -/
theorem next_unflagged (frame : Frame) : frame.next.unflagged = frame.unflagged.next := by
  cases current : frame.current <;>
    simp [next, unflagged, elementNode, Bound.unflagged, current]

/-- The branch of a bound does not show whether the bound had the flag. -/
theorem branch_unflagged (prune : Bool) (frame : Frame) :
    frame.unflagged.branch prune = frame.branch prune := by
  cases current : frame.current with
  | none => simp [branch, unflagged, node, Bound.unflagged, current]
  | some contents =>
    simp [branch, next, unflagged, node, elementNode, Bound.unflagged, current]

/-- A bound that has just begun has no contents. -/
theorem start_hasContents (bound : Bound) (opener : Option Token) :
    (start bound opener).hasContents = false := by
  cases element : bound.element <;> simp [start, hasContents, element]

/-- A reader remembers of a frame that has just been started only its bound. -/
theorem openBound_start (bound : Bound) (opener : Option Token) :
    (start bound opener).openBound = { bound } := by
  rw [openBound, start_hasContents]
  rfl

/-- Behind a child there are contents, in the element in progress or in the bound itself. -/
theorem push_hasContents (frame : Frame) (child : Tree) :
    (frame.push child).hasContents = true := by
  cases current : frame.current <;> simp [push, hasContents, current]

/-- An element that was just begun has no contents. -/
theorem next_hasContents {frame : Frame} (grouped : frame.current.isSome) :
    frame.next.hasContents = false := by
  obtain ⟨contents, current⟩ := Option.isSome_iff_exists.mp grouped
  simp [next, hasContents, current]

/-- Without flags, a bound that is received only becomes part of the contents. -/
theorem unflagged_receive (parent child : Frame) :
    parent.unflagged.receive child.unflagged = (parent.push (child.branch false)).unflagged := by
  have cleared : parent.unflagged.bound.endIsParentSplit = false := rfl
  rw [receive, cleared, Bool.and_false, if_neg Bool.false_ne_true, branch_unflagged,
    push_unflagged]

end Frame

/-! ## Buildings -/

namespace Building

/-- The building with its bounds without flags. -/
def unflagged (building : Building Unit) : Building Unit where
  top := building.top.unflagged
  outer := building.outer.map Frame.unflagged
  ledger := building.ledger

/-- What a reader remembers of the building. -/
def openBounds (building : Building Unit) : OpenBounds where
  top := building.top.openBound
  outer := building.outer.map Frame.openBound

variable {nesting : Nesting} {pending : List Token} {top : Frame} {outer : List Frame}

/-- An open bound is the root or a declared one. -/
theorem Stacked.declared (stacked : Stacked nesting pending (top :: outer)) :
    top.bound = nesting.root ∨ top.bound ∈ nesting.bounds.values := by
  cases stacked with
  | root bound _ => exact .inl bound
  | inner opened _ _ _ => exact .inr ((Dictionary.mem_values_iff _ _).mpr ⟨_, opened⟩)

/-- The frames and the reader agree on the innermost open bound. -/
theorem Stacked.inside?_openBounds {building : Building Unit}
    (stacked : Stacked nesting pending (building.top :: building.outer)) :
    building.openBounds.inside? = nesting.innermost? pending := by
  unfold OpenBounds.inside? openBounds Nesting.innermost?
  generalize building.outer = around at stacked ⊢
  cases stacked with
  | root _ _ => rfl
  | inner opened _ _ outer => cases outer <;> simpa [Frame.openBound] using opened.symm

/-- A flagged bound without contents in progress, or any other with the bound that it received
as contents. -/
theorem Stacked.receive_hasContents (writable : nesting.SeparatorsWritable)
    (stacked : Stacked nesting pending (top :: outer)) (child : Frame) :
    (top.receive child).hasContents = !(child.hasContents && top.bound.endIsParentSplit) := by
  unfold Frame.receive
  split
  · rename_i divides
    have flagged : top.bound.endIsParentSplit := (Bool.and_eq_true_iff.mp divides).2
    obtain ⟨grouped, _⟩ := writable top.bound stacked.declared flagged
    have inProgress : (top.push (child.branch false)).current.isSome := by
      rw [Frame.push_current_isSome, stacked.leveled]
      exact grouped
    rw [divides, Frame.next_hasContents inProgress]
    rfl
  · rename_i joins
    rw [Bool.not_eq_true] at joins
    rw [joins, Frame.push_hasContents]
    rfl

/-- The reader remembers of a building what it remembered before, changed by the token. A closing
token leaves the frame around it empty only when the bound that it closes had contents and ends an
element, and the reader knows both. -/
theorem openBounds_take (writable : nesting.SeparatorsWritable) {building : Building Unit}
    (stacked : Stacked nesting pending (building.top :: building.outer)) (token : Token) :
    (building.take nesting .none token).openBounds = building.openBounds.read nesting token := by
  have taken := take_taken stacked token
  unfold OpenBounds.read
  rw [stacked.inside?_openBounds]
  generalize nesting.role (nesting.innermost? pending) token = role at taken ⊢
  generalize building.take nesting .none token = next at taken ⊢
  cases taken with
  | opens bound opened => simp [openBounds, Frame.openBound_start, opened]
  | closes opener earlier parent around innermost outer unopened closes =>
    rw [innermost, outer] at stacked
    cases stacked with
    | inner _ _ _ outerStacked =>
      simp [openBounds, OpenBounds.close, Frame.openBound, outer,
        outerStacked.receive_hasContents writable building.top]
  | divides unopened divides =>
    have grouped : building.top.bound.element.isSome := (Bool.and_eq_true_iff.mp divides).1
    have inProgress : building.top.current.isSome := by
      rw [stacked.leveled]
      exact grouped
    simp [openBounds, Frame.openBound, Frame.next_hasContents inProgress]
  | stray bound unopened closed => rfl
  | stands unopened undivided unclosed => simp [openBounds, Frame.openBound, Frame.push_hasContents]

/-- Without flags, the frames are those of the same pending tokens. -/
theorem Stacked.unflagged {frames : List Frame} (stacked : Stacked nesting pending frames) :
    Stacked nesting.unflagged pending (frames.map Frame.unflagged) := by
  induction stacked with
  | root bound leveled => exact .root (congrArg Bound.unflagged bound) leveled
  | inner opened own leveled _ inductionHypothesis =>
    exact .inner (by simp [opened, Frame.unflagged]) own leveled inductionHypothesis

/-- The separator of a flagged bound, written out, ends the element in progress. It opens nothing
and is not the closing token, because separators can be written out. -/
theorem take_written (writable : nesting.SeparatorsWritable) {building : Building Unit}
    (stacked : Stacked nesting pending (building.top :: building.outer))
    (flagged : building.top.bound.endIsParentSplit) {token : Token}
    (written : building.top.bound.split = some token.value) :
    building.unflagged.take nesting.unflagged .none token =
      { building.unflagged with top := building.top.unflagged.next } := by
  obtain ⟨grouped, separator, split, unopened, unclosed⟩ :=
    writable building.top.bound stacked.declared flagged
  obtain rfl : token.value = separator := Option.some.inj (written.symm.trans split)
  have divides : building.unflagged.top.isSplitBy token.value := by
    have inProgress : building.unflagged.top.current.isSome := by
      rw [show building.unflagged.top.current.isSome = _ from stacked.leveled]
      exact grouped
    rw [Frame.isSplitBy, inProgress]
    exact decide_eq_true split
  have stays : building.unflagged.outer = [] ∨
      building.unflagged.top.bound.closing ≠ token.value := .inr (Ne.symm unclosed)
  rw [take_separator (by simp [unopened]) stays divides, Frame.split_none]
  rfl

/-- A bound that is received with flags is received without them, and then the separator is
taken that the flag stands for. -/
theorem unflagged_receive (writable : nesting.SeparatorsWritable) {parent : Frame}
    {around : List Frame} (stacked : Stacked nesting pending (parent :: around)) (child : Frame)
    (ledger : Ledger Unit) (written : Token) :
    unflagged { top := parent.receive child, outer := around, ledger } =
      ((if child.hasContents && parent.bound.endIsParentSplit then parent.bound.split
        else none).toList.map fun separator =>
          { written with value := separator }).foldl (take nesting.unflagged .none)
        { top := parent.unflagged.receive child.unflagged
          outer := around.map Frame.unflagged
          ledger } := by
  rw [Frame.unflagged_receive, Frame.receive]
  by_cases divides : child.hasContents && parent.bound.endIsParentSplit
  · have flagged : parent.bound.endIsParentSplit := (Bool.and_eq_true_iff.mp divides).2
    obtain ⟨_, separator, split, _⟩ := writable parent.bound stacked.declared flagged
    have pushed : Stacked nesting pending (parent.push (child.branch false) :: around) :=
      stacked.replaceTop (by simp) (by simp) (by simp)
    have ended := @take_written nesting pending writable
      { top := parent.push (child.branch false), outer := around, ledger } pushed
      (by simpa using flagged) { written with value := separator } (by simpa using split)
    rw [if_pos divides, if_pos divides, split]
    simp only [Option.toList_some, List.map_cons, List.map_nil, List.foldl_cons, List.foldl_nil]
    rw [unflagged] at ended
    rw [ended, unflagged, Frame.next_unflagged]
  · rw [if_neg divides, if_neg divides]
    rfl

/-- One token with flags is the same token without flags, followed by the separator for which
it stands.

Proof: a token of any other role than closing does the same in both buildings. A closing token
leads to the same frames but for the element that the flag ends, and the separator ends that
one. -/
theorem unflagged_take (writable : nesting.SeparatorsWritable) (mark : Token → Token)
    {building : Building Unit}
    (stacked : Stacked nesting pending (building.top :: building.outer)) (token : Token) :
    (building.take nesting .none token).unflagged =
      (token :: (building.openBounds.due? nesting token).toList.map fun separator =>
        { mark token with value := separator }).foldl (take nesting.unflagged .none)
          building.unflagged := by
  have taken := take_taken stacked token
  have takenPlain : Taken nesting.unflagged pending building.unflagged token
      (nesting.role (nesting.innermost? pending) token)
      (building.unflagged.take nesting.unflagged .none token) := by
    rw [← nesting.role_unflagged, ← nesting.innermost?_unflagged]
    exact take_taken stacked.unflagged token
  unfold OpenBounds.due?
  rw [stacked.inside?_openBounds, List.foldl_cons]
  generalize nesting.role (nesting.innermost? pending) token = role at taken takenPlain ⊢
  generalize building.take nesting .none token = next at taken ⊢
  generalize building.unflagged.take nesting.unflagged .none token = plain at takenPlain ⊢
  cases taken with
  | opens bound opened =>
    cases takenPlain with
    | opens other openedPlain =>
      obtain rfl : other = bound.unflagged := by simpa [opened] using openedPlain.symm
      rfl
  | closes opener earlier parent around innermost outer unopened closes =>
    cases takenPlain with
    | closes _ _ parentPlain aroundPlain _ outerPlain _ _ =>
      obtain ⟨rfl, rfl⟩ : parentPlain = parent.unflagged ∧
          aroundPlain = around.map Frame.unflagged := by
        simpa [unflagged, outer, eq_comm] using outerPlain
      have surrounding : building.openBounds.outer =
          parent.openBound :: around.map Frame.openBound := by
        simp [openBounds, outer]
      rw [innermost, outer] at stacked
      rw [surrounding]
      cases stacked with
      | inner _ _ _ outerStacked =>
        exact unflagged_receive writable outerStacked building.top building.ledger (mark token)
  | divides unopened divides =>
    cases takenPlain
    simp [unflagged, Frame.next_unflagged]
  | stray bound unopened closed =>
    cases takenPlain with
    | stray other _ closedPlain =>
      obtain rfl : other = bound.unflagged := by simpa [closed] using closedPlain.symm
      rfl
  | stands unopened undivided unclosed =>
    cases takenPlain
    simp [unflagged, Frame.push_unflagged]

/-- All tokens with flags are the same tokens without flags, with the separators written out. By
induction over the tokens, for any open bounds and what a reader remembers of them. -/
theorem unflagged_foldl_take (writable : nesting.SeparatorsWritable) (mark : Token → Token)
    {building : Building Unit} {brackets : Brackets}
    (stacked : Stacked nesting brackets.pending (building.top :: building.outer))
    (tokens : List Token) :
    (tokens.foldl (take nesting .none) building).unflagged =
      (nesting.writtenOut mark building.openBounds tokens).foldl (take nesting.unflagged .none)
        building.unflagged := by
  induction tokens generalizing building brackets with
  | nil => rfl
  | cons token tokens inductionHypothesis =>
    rw [Nesting.writtenOut, List.foldl_append, ← unflagged_take writable mark stacked token,
      ← openBounds_take writable stacked token]
    exact inductionHypothesis (stacked.take token)

/-- What is still open is closed in the same way without flags. -/
theorem finish_unflagged (top : Frame) (outer : List Frame) (ledger : Ledger Unit) :
    finish .none top.unflagged (outer.map Frame.unflagged) ledger =
      finish .none top outer ledger := by
  induction outer generalizing top ledger with
  | nil => simp [finish, Frame.branch_unflagged]
  | cons parent outer inductionHypothesis =>
    simp only [List.map_cons, finish, Frame.finish_none, Frame.branch_unflagged,
      ← Frame.push_unflagged]
    exact inductionHypothesis _ _

end Building

namespace Nesting

/-- A flag is an abbreviation for separators. Where the separators of all flagged bounds can be
written, a list of tokens is built into the same tree with the same reports as the list with
the separators written out is built by the nesting without flags, whatever the lines, columns
and classes of the separators are. -/
theorem buildWith_none_writtenOut (nesting : Nesting) (writable : nesting.SeparatorsWritable)
    (mark : Token → Token) (tokens : List Token) :
    nesting.buildWith .none () tokens =
      nesting.unflagged.buildWith .none ()
        (nesting.writtenOut mark { top := { bound := nesting.root } } tokens) := by
  have rootOpen : nesting.begun.openBounds = { top := { bound := nesting.root } } := by
    simp [Building.openBounds, begun, Frame.openBound_start]
  rw [← rootOpen]
  have filled : (nesting.filled tokens).unflagged =
      nesting.unflagged.filled (nesting.writtenOut mark nesting.begun.openBounds tokens) :=
    Building.unflagged_foldl_take writable mark nesting.begun_stacked tokens
  have built (nesting : Nesting) (tokens : List Token) : nesting.buildWith .none () tokens =
      { value := (Building.finish .none (nesting.filled tokens).top (nesting.filled tokens).outer
          (nesting.filled tokens).ledger).1
        diagnostics := (Building.finish .none (nesting.filled tokens).top
          (nesting.filled tokens).outer (nesting.filled tokens).ledger).2.diagnostics
        state := () } := rfl
  rw [built, built, ← filled]
  simp only [Building.unflagged, Building.finish_unflagged]

/-- Lines of blocks and calls, where what is closed with contents ends the line. -/
def closingLines : Nesting where
  root :=
    { name := "program", element := some "line", split := some ";", endIsParentSplit := true }
  bounds := (Dictionary.empty.insert "["
    { name := "block", start := "[", closing := "]", element := some "line", split := some ";"
      endIsParentSplit := true }).insert "(" { name := "call", start := "(", closing := ")" }

/-- The separators of the lines that closing tokens end can be written out. There are three bounds
with the root, and one of them has no flag. -/
theorem closingLines_writable : closingLines.SeparatorsWritable := by
  have values : closingLines.bounds.values =
      [{ name := "call", start := "(", closing := ")" },
        { name := "block", start := "[", closing := "]", element := some "line"
          split := some ";", endIsParentSplit := true }] := by
    decide
  intro bound declared flagged
  rw [values] at declared
  simp only [List.mem_cons, List.not_mem_nil, or_false] at declared
  rcases declared with rfl | rfl | rfl
  · exact ⟨rfl, ";", rfl, by decide, by decide⟩
  · cases flagged
  · exact ⟨rfl, ";", rfl, by decide, by decide⟩

/-- The call ends the line of the block, which has then no contents in progress and ends no
line itself; the second block does. -/
theorem closingLines_built :
    closingLines.SeparatorsWritable ∧
      closingLines.buildWith .none ()
          (["[", "f", "(", "x", ")", "]", "[", "a", "]", "b"].map fun value => { value }) =
        closingLines.unflagged.buildWith .none ()
          (["[", "f", "(", "x", ")", ";", "]", "[", "a", "]", ";", "b"].map
            fun value => { value }) := by
  refine ⟨closingLines_writable, ?_⟩
  have written : closingLines.writtenOut (fun _ => {}) { top := { bound := closingLines.root } }
        (["[", "f", "(", "x", ")", "]", "[", "a", "]", "b"].map fun value => { value }) =
      ["[", "f", "(", "x", ")", ";", "]", "[", "a", "]", ";", "b"].map fun value => { value } := by
    decide
  rw [← written]
  exact buildWith_none_writtenOut closingLines closingLines_writable _ _

end Nesting

end Parlance
