import Parlance.Proofs.Dictionary
import Parlance.Proofs.Nesting.Step

/-!
# The brackets of a list of tokens

Which bound is open where depends on the tokens alone. A reader needs no trees for it: it
remembers the tokens that opened the bounds still open, and the closing tokens that closed
nothing. A building does the same with its frames. This file defines the reader and shows
that a building whose hook leaves every node as it is follows it: after every token, its
frames are those of the bounds that the reader has open, and what the token did to the
frames is decided by the role that the reader gives it.

Nothing is asked of the nesting. Its bounds may have any tokens, also such that a start
closes another bound.
-/

namespace Parlance

/-- Whether a token of the given value divides the elements of the bound. -/
def Bound.isSplitBy (bound : Bound) (value : String) : Bool :=
  bound.element.isSome && bound.split = some value

namespace Nesting

/-- The innermost open bound, where `pending` are the tokens that opened the bounds still
open, innermost first. It is absent when only the root is open. -/
def innermost? (nesting : Nesting) (pending : List Token) : Option Bound :=
  pending.head?.bind fun opener => nesting.opened? opener.value

/-- What a token is among brackets. -/
inductive Role where
  /-- It opens a bound. -/
  | opens
  /-- It closes the innermost open bound. -/
  | closes
  /-- It divides the elements of the innermost open bound. -/
  | divides
  /-- It is the closing token of some bound, but not of the innermost open one. -/
  | stray
  /-- It stands for itself. -/
  | stands
deriving DecidableEq, Repr

/-- The role of a token, where `inside` is the innermost open bound, absent when only the
root is open. The root is never closed. -/
def role (nesting : Nesting) (inside : Option Bound) (token : Token) : Role :=
  if (nesting.opened? token.value).isSome then .opens
  else if inside.any (·.closing = token.value) then .closes
  else if (inside.getD nesting.root).isSplitBy token.value then .divides
  else if (nesting.closed? token.value).isSome then .stray
  else .stands

end Nesting

/-- What a reader of brackets remembers. -/
structure Brackets where
  /-- The tokens that opened the bounds still open, innermost first. -/
  pending : List Token := []
  /-- The closing tokens that closed nothing, oldest first. -/
  broken : List Token := []
deriving DecidableEq, Repr

/-- Read one more token. -/
def Brackets.read (nesting : Nesting) (brackets : Brackets) (token : Token) : Brackets :=
  match nesting.role (nesting.innermost? brackets.pending) token with
  | .opens => { brackets with pending := token :: brackets.pending }
  | .closes => { brackets with pending := brackets.pending.tail }
  | .stray => { brackets with broken := brackets.broken ++ [token] }
  | .divides | .stands => brackets

/-- The brackets of a list of tokens. -/
def Nesting.brackets (nesting : Nesting) (tokens : List Token) : Brackets :=
  tokens.foldl (Brackets.read nesting) {}

namespace Frame

/-- An element is in progress exactly where the bound has elements. -/
def Leveled (frame : Frame) : Prop := frame.current.isSome = frame.bound.element.isSome

/-- The frame with the bound of another frame finished and put in. Contents of that bound
end the element in progress where the flag says so. -/
def receive (parent child : Frame) : Frame :=
  if child.hasContents && parent.bound.endIsParentSplit then
    (parent.push (child.branch false)).next
  else parent.push (child.branch false)

/-- Finishing an element does not change the token that opened the bound. -/
@[simp] theorem next_opener (frame : Frame) : frame.next.opener = frame.opener := by
  cases current : frame.current <;> simp [next, current]

/-- Whatever is put into a frame, the frame fills the same bound. -/
@[simp] theorem receive_bound (parent child : Frame) :
    (parent.receive child).bound = parent.bound := by
  unfold receive
  split <;> simp

/-- Whatever is put into a frame, the frame has the same opener. -/
@[simp] theorem receive_opener (parent child : Frame) :
    (parent.receive child).opener = parent.opener := by
  unfold receive
  split <;> simp

/-- Whatever is put into a frame, an element is in progress as before, though it may be another
one. -/
@[simp] theorem receive_current_isSome (parent child : Frame) :
    (parent.receive child).current.isSome = parent.current.isSome := by
  unfold receive
  split <;> simp

end Frame

namespace Building

/-- The frames, innermost first, are those of the bounds that the pending tokens opened,
with that of the root behind them. -/
inductive Stacked (nesting : Nesting) : List Token → List Frame → Prop where
  | root {frame : Frame} (bound : frame.bound = nesting.root) (leveled : frame.Leveled) :
    Stacked nesting [] [frame]
  | inner {opener : Token} {pending : List Token} {frame : Frame} {frames : List Frame}
    (opened : nesting.opened? opener.value = some frame.bound)
    (own : frame.opener = some opener) (leveled : frame.Leveled)
    (outer : Stacked nesting pending frames) :
    Stacked nesting (opener :: pending) (frame :: frames)

variable {nesting : Nesting} {pending : List Token} {top : Frame} {outer : List Frame}

/-- The innermost frame is that of the innermost open bound, or of the root. -/
theorem Stacked.bound (stacked : Stacked nesting pending (top :: outer)) :
    (nesting.innermost? pending).getD nesting.root = top.bound := by
  cases stacked with
  | root bound _ => exact bound.symm
  | inner opened _ _ _ => simp [Nesting.innermost?, opened]

/-- The innermost frame of a stack has an element in progress exactly where its bound has
elements. -/
theorem Stacked.leveled (stacked : Stacked nesting pending (top :: outer)) : top.Leveled := by
  cases stacked with
  | root _ leveled => exact leveled
  | inner _ _ leveled _ => exact leveled

/-- Only the root has no frame around it, and only it is never closed. -/
theorem Stacked.innermost?_any (stacked : Stacked nesting pending (top :: outer))
    (value : String) :
    (nesting.innermost? pending).any (·.closing = value) =
      (!outer.isEmpty && top.bound.closing = value) := by
  cases stacked with
  | root _ _ => rfl
  | inner opened _ _ around => cases around <;> simp [Nesting.innermost?, opened]

/-- The innermost frame may be exchanged for another one of its bound. Whatever it holds, it is the
frame of a bound that is open, with the opener of that bound. -/
theorem Stacked.replaceTop (stacked : Stacked nesting pending (top :: outer)) {frame : Frame}
    (bound : frame.bound = top.bound) (opener : frame.opener = top.opener)
    (level : frame.current.isSome = top.current.isSome) :
    Stacked nesting pending (frame :: outer) := by
  have leveled : frame.Leveled := by
    rw [Frame.Leveled, level, bound]
    exact stacked.leveled
  cases stacked with
  | root root _ => exact .root (bound.trans root) leveled
  | inner opened own _ around =>
    exact .inner (bound ▸ opened) (opener.trans own) leveled around

/-- An open bound is a declared one, so its closing token is the closing token of some
declared bound. -/
theorem Stacked.closed?_isSome {opener : Token}
    (stacked : Stacked nesting (opener :: pending) (top :: outer)) :
    (nesting.closed? top.bound.closing).isSome := by
  cases stacked with
  | inner opened _ _ _ =>
    have declared : top.bound ∈ nesting.bounds.values :=
      (Dictionary.mem_values_iff nesting.bounds top.bound).mpr ⟨_, opened⟩
    exact List.find?_isSome.mpr ⟨top.bound, declared, by simp⟩

/-- What taking a token of the given role does to a building whose hook leaves every node
as it is. -/
inductive Taken (nesting : Nesting) (pending : List Token) (building : Building Unit)
    (token : Token) : Nesting.Role → Building Unit → Prop where
  | opens (bound : Bound) (opened : nesting.opened? token.value = some bound) :
    Taken nesting pending building token .opens
      { building with top := .start bound (some token), outer := building.top :: building.outer }
  | closes (opener : Token) (earlier : List Token) (parent : Frame) (around : List Frame)
    (innermost : pending = opener :: earlier) (outer : building.outer = parent :: around)
    (unopened : nesting.opened? token.value = none)
    (closes : building.top.bound.closing = token.value) :
    Taken nesting pending building token .closes
      { building with top := parent.receive building.top, outer := around }
  | divides (unopened : nesting.opened? token.value = none)
    (divides : building.top.bound.isSplitBy token.value) :
    Taken nesting pending building token .divides { building with top := building.top.next }
  | stray (bound : Bound) (unopened : nesting.opened? token.value = none)
    (closed : nesting.closed? token.value = some bound) :
    Taken nesting pending building token .stray
      { building with
        ledger := building.ledger.report
          ((Problem.mismatchedBounds bound.start token.value).diagnose token) }
  | stands (unopened : nesting.opened? token.value = none)
    (undivided : ¬ building.top.bound.isSplitBy token.value)
    (unclosed : nesting.closed? token.value = none) :
    Taken nesting pending building token .stands
      { building with top := building.top.push (.leaf token) }

/-- A bound that is closed is received by the one around it. -/
theorem close_none_eq {building : Building Unit} {parent : Frame} {around : List Frame}
    (outer : building.outer = parent :: around) :
    building.close .none =
      { building with top := parent.receive building.top, outer := around } := by
  simp only [close, outer, Frame.finish_none, Frame.split_none, Frame.push_bound, Frame.receive]
  split <;> rfl

/-- A building whose frames are those of the pending tokens takes a token as its role says. The
tests come in the same order in both: a start first, then the closing token of the innermost bound,
its separator, and any other closing token. -/
theorem take_taken {building : Building Unit}
    (stacked : Stacked nesting pending (building.top :: building.outer)) (token : Token) :
    Taken nesting pending building token (nesting.role (nesting.innermost? pending) token)
      (building.take nesting .none token) := by
  have splits : building.top.isSplitBy token.value = building.top.bound.isSplitBy token.value := by
    rw [Frame.isSplitBy, Bound.isSplitBy, show building.top.current.isSome = _ from stacked.leveled]
  unfold Nesting.role
  rw [stacked.bound, stacked.innermost?_any]
  cases opened : nesting.opened? token.value with
  | some declared =>
    rw [take_start opened]
    exact .opens declared opened
  | none =>
    by_cases closes : building.outer ≠ [] ∧ building.top.bound.closing = token.value
    · rw [take_closing opened closes.1 closes.2]
      cases outer : building.outer with
      | nil => exact absurd outer closes.1
      | cons parent around =>
        rw [close_none_eq outer]
        simp only [Option.isSome_none, List.isEmpty_cons, closes.2]
        rw [outer] at stacked
        cases stacked with
        | inner _ _ _ _ => exact .closes _ _ parent around rfl outer opened closes.2
    · have stays : building.outer = [] ∨ building.top.bound.closing ≠ token.value :=
        (Decidable.not_and_iff_not_or_not.mp closes).imp_left Decidable.not_not.mp
      have unclosed : ¬ (!building.outer.isEmpty &&
          decide (building.top.bound.closing = token.value)) = true := by
        simpa using closes
      rw [if_neg (by simp), if_neg unclosed]
      by_cases divides : building.top.bound.isSplitBy token.value
      · rw [take_separator opened stays (splits ▸ divides), Frame.split_none, if_pos divides]
        exact .divides opened divides
      · rw [if_neg divides]
        cases closed : nesting.closed? token.value with
        | some other =>
          rw [take_stray opened stays (splits ▸ divides) closed]
          exact .stray other opened closed
        | none =>
          rw [take_leaf opened stays (splits ▸ divides) closed, Ledger.visit_none]
          exact .stands opened divides closed

/-- After a token, the frames are again those of the bounds still open. A start adds a frame and a
token alike, a closing token takes one of each away, and nothing else changes the bounds. -/
theorem Stacked.take {building : Building Unit} {brackets : Brackets}
    (stacked : Stacked nesting brackets.pending (building.top :: building.outer)) (token : Token) :
    Stacked nesting (brackets.read nesting token).pending
      ((building.take nesting .none token).top :: (building.take nesting .none token).outer) := by
  have taken := take_taken stacked token
  unfold Brackets.read
  generalize nesting.role (nesting.innermost? brackets.pending) token = role at taken ⊢
  generalize building.take nesting .none token = next at taken ⊢
  cases taken with
  | opens bound opened => exact .inner opened rfl (by simp [Frame.Leveled, Frame.start]) stacked
  | closes opener earlier parent around innermost outer unopened closes =>
    rw [innermost, outer] at stacked
    rw [innermost]
    cases stacked with
    | inner _ _ _ around => exact around.replaceTop (by simp) (by simp) (by simp)
  | divides unopened divides => exact stacked.replaceTop (by simp) (by simp) (by simp)
  | stray bound unopened closed => exact stacked
  | stands unopened undivided unclosed => exact stacked.replaceTop (by simp) (by simp) (by simp)

/-- After any tokens, the frames are those of the bounds still open. -/
theorem Stacked.foldl_take {building : Building Unit} {brackets : Brackets}
    (stacked : Stacked nesting brackets.pending (building.top :: building.outer))
    (tokens : List Token) :
    Stacked nesting (tokens.foldl (Brackets.read nesting) brackets).pending
      ((tokens.foldl (Building.take nesting .none) building).top ::
        (tokens.foldl (Building.take nesting .none) building).outer) := by
  induction tokens generalizing building brackets with
  | nil => exact stacked
  | cons token tokens inductionHypothesis => exact inductionHypothesis (stacked.take token)

end Building

namespace Nesting

/-- The building before any token. -/
def begun (nesting : Nesting) : Building Unit :=
  { top := .start nesting.root none, outer := [], ledger := { state := () } }

/-- The building after the given tokens. -/
def filled (nesting : Nesting) (tokens : List Token) : Building Unit :=
  tokens.foldl (Building.take nesting .none) nesting.begun

/-- Before any token, only the root is open. -/
theorem begun_stacked (nesting : Nesting) :
    Building.Stacked nesting ({} : Brackets).pending
      (nesting.begun.top :: nesting.begun.outer) :=
  .root rfl (by simp [Frame.Leveled, begun, Frame.start])

/-- A building follows the reader of its brackets. -/
theorem filled_stacked (nesting : Nesting) (tokens : List Token) :
    Building.Stacked nesting (nesting.brackets tokens).pending
      ((nesting.filled tokens).top :: (nesting.filled tokens).outer) :=
  nesting.begun_stacked.foldl_take tokens

/-- A tree is built by taking all tokens and then closing what is still open. -/
theorem buildWith_none_eq (nesting : Nesting) (tokens : List Token) :
    (nesting.buildWith .none () tokens).toReported =
      { value := (Building.finish .none (nesting.filled tokens).top (nesting.filled tokens).outer
          (nesting.filled tokens).ledger).1
        diagnostics := (Building.finish .none (nesting.filled tokens).top
          (nesting.filled tokens).outer (nesting.filled tokens).ledger).2.diagnostics } := rfl

end Nesting

end Parlance
