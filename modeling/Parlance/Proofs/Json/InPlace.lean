import Mathlib.Data.List.TakeWhile
import Parlance.Proofs.Escape.InPlace
import Parlance.Proofs.Json.Lines

/-!
# Plain text by byte offsets

The two passes that make a text plain can be run on its bytes in UTF-8. A pass keeps the place of
the byte that is looked at next and copies nothing as long as nothing is left out. Only in front of
a comment, or of a comma that goes, what has been passed since the last such place is cut out of
the text and written, and at the end what is left.

Run like this, a pass looks at single bytes of longer characters, also behind a backslash, where
it goes on in the middle of a character. But all bytes of a character from 128 on are at least 128
themselves, and none of these is a quote, a backslash, a slash, a star, a comma, a bracket or a
blank. So they are passed one after the other, the text is cut in front of and behind characters
below 128 only, and both passes come to the same text as when they go from character to character.
Each round passes at least one byte, so that one round more than there are bytes is enough.
-/

namespace Parlance

/-! ## Bytes read as characters -/

namespace Text

/-- The bytes of a text in UTF-8, each read as the character with its code. -/
def units (text : List Char) : List Char := (bytes text).map ofByte

/-- The bytes of a character, each read as the character with its code. -/
def unitsOf (c : Char) : List Char := (String.utf8EncodeChar c).map ofByte

/-- The bytes of a text are those of its first character and then those of the rest. -/
theorem units_cons (c : Char) (rest : List Char) : units (c :: rest) = unitsOf c ++ units rest := by
  rw [units, bytes_cons, List.map_append, unitsOf, units]

/-- The bytes of two texts in a row are those of the first and then those of the second. -/
theorem units_append (first second : List Char) :
    units (first ++ second) = units first ++ units second := by
  rw [units, bytes_append, List.map_append, units, units]

/-- A text has as many bytes as its characters take. -/
@[simp] theorem length_units (text : List Char) : (units text).length = byteLength text := by
  rw [units, List.length_map, length_bytes]

/-- A character has as many bytes as it takes. -/
@[simp] theorem length_unitsOf (c : Char) : (unitsOf c).length = c.utf8Size := by
  rw [unitsOf, List.length_map, String.length_utf8EncodeChar]

/-- A byte is read as the character whose code it is. -/
theorem toNat_ofByte (byte : UInt8) : (ofByte byte).toNat = byte.toNat := by
  have code : byte.toNat.isValidChar := .inl (lt_trans byte.toNat_lt (by decide))
  rw [ofByte, Char.ofNat, dif_pos code]
  rfl

/-- The bytes of a character begin with its lead byte. -/
theorem unitsOf_eq_cons (c : Char) : ∃ others, unitsOf c = leading c :: others := by
  obtain ⟨others, encoded⟩ := utf8EncodeChar_eq_cons c
  refine ⟨others.map ofByte, ?_⟩
  rw [unitsOf, encoded, List.map_cons, ofByte_leadByte]

/-- A character below 128 is its own single byte. -/
theorem unitsOf_of_lt {c : Char} (small : c.toNat < 128) : unitsOf c = [c] := by
  obtain ⟨others, shown⟩ := unitsOf_eq_cons c
  have single : (unitsOf c).length = 1 := by rw [length_unitsOf, Escape.utf8Size_of_toNat_lt small]
  rw [shown, List.length_cons] at single
  obtain rfl : others = [] := List.length_eq_zero_iff.mp (by omega)
  rw [shown, leading_of_lt small]

/-- All bytes of a character from 128 on are at least 128. The encoding puts such a character into
two, three or four bytes, which are looked at one by one. -/
theorem le_of_mem_unitsOf {c : Char} (large : 128 ≤ c.toNat) {unit : Char}
    (member : unit ∈ unitsOf c) : 128 ≤ unit.toNat := by
  have high {code : Nat} (above : 128 ≤ code) (below : code < 256) :
      128 ≤ (UInt8.ofNat code).toNat := by
    rw [UInt8.toNat_ofNat_of_lt' below]
    exact above
  obtain ⟨byte, encoded, rfl⟩ := List.mem_map.mp member
  rw [toNat_ofByte]
  have several : ¬ c.val.toNat ≤ 127 := Nat.not_le.mpr large
  simp only [String.utf8EncodeChar, if_neg several] at encoded
  split_ifs at encoded <;>
    simp only [List.mem_cons, List.not_mem_nil, or_false] at encoded <;>
    rcases encoded with rfl | rfl | rfl | rfl <;>
    exact high (by omega) (by omega)

/-- Behind the first byte of a character, all its bytes are at least 128. -/
theorem le_of_getElem?_unitsOf {c unit : Char} {index : Nat}
    (found : (unitsOf c)[index + 1]? = some unit) : 128 ≤ unit.toNat := by
  rcases Nat.lt_or_ge c.toNat 128 with small | large
  · rw [unitsOf_of_lt small] at found
    cases found
  · exact le_of_mem_unitsOf large (List.mem_of_getElem? found)

/-- A character below 128 is found among the bytes of itself only. All bytes of a larger character
are 128 at least, and a smaller one is its own byte. -/
theorem eq_iff_of_mem_unitsOf {c d unit : Char} (small : d.toNat < 128)
    (member : unit ∈ unitsOf c) : unit = d ↔ c = d := by
  rcases Nat.lt_or_ge c.toNat 128 with below | large
  · rw [unitsOf_of_lt below, List.mem_singleton] at member
    rw [member]
  · have high := le_of_mem_unitsOf large member
    constructor
    · rintro rfl
      omega
    · rintro rfl
      omega

/-- The bytes in front of the first one with a given character below 128 are those of the
characters in front of the first such character. -/
theorem takeWhile_units {d : Char} (small : d.toNat < 128) (text : List Char) :
    (units text).takeWhile (· ≠ d) = units (text.takeWhile (· ≠ d)) := by
  induction text with
  | nil => rfl
  | cons c rest inductionHypothesis =>
    have alike : ∀ unit ∈ unitsOf c, (unit = d ↔ c = d) :=
      fun _ => eq_iff_of_mem_unitsOf small
    rw [units_cons]
    by_cases same : c = d
    · rw [same, unitsOf_of_lt small, List.singleton_append, List.takeWhile_cons_of_neg (by simp),
        List.takeWhile_cons_of_neg (by simp)]
      rfl
    · have others : ∀ unit ∈ unitsOf c, decide (unit ≠ d) = true := by
        intro unit member
        simpa [alike unit member] using same
      rw [List.takeWhile_append_of_pos others, inductionHypothesis,
        List.takeWhile_cons_of_pos (by simpa using same), units_cons]

/-- The first byte of a text is a character below 128 exactly when the text begins with it. -/
theorem head?_units_iff {d : Char} (small : d.toNat < 128) (text : List Char) :
    (units text).head? = some d ↔ text.head? = some d := by
  cases text with
  | nil => rfl
  | cons c rest =>
    obtain ⟨others, shown⟩ := unitsOf_eq_cons c
    have alike : leading c = d ↔ c = d := leading_iff (· = d) (by rintro _ rfl; exact small) c
    rw [units_cons, shown, List.cons_append, List.head?_cons, List.head?_cons, Option.some_inj,
      Option.some_inj, alike]

end Text

namespace Json

open Escape.InPlace (Halt cut cut_byteLength ok_bind pure_eq_ok)

namespace InPlace

/-! ## Passes over bytes -/

/-- What a pass knows between two rounds. -/
structure Copying where
  /-- Whether the byte at the place is in a string literal. -/
  literal : Bool := false
  /-- The offset of the byte that is looked at next. -/
  place : Nat := 0
  /-- The offset up to which the text has been written or left out. -/
  copied : Nat := 0
  written : List Char := []

/-- The part of a text from one byte offset to another. -/
def slice (text : List Char) (start stop : Nat) : Except Halt (List Char) := do
  let (front, _) ← cut stop text
  let (_, part) ← cut start front
  return part

/-- Go on by so many bytes. -/
def Copying.by (copying : Copying) (count : Nat) : Copying :=
  { copying with place := copying.place + count }

/-- Look at a byte of a literal. A backslash takes the byte behind it along. -/
def Copying.inLiteral (copying : Copying) (unit : Char) : Copying :=
  if unit = '\\' then copying.by 2
  else if unit = '"' then { copying.by 1 with literal := false }
  else copying.by 1

/-- The bytes of a block comment in front of its end, or all when it has none. -/
def beforeEnd : List Char → List Char
  | [] => []
  | unit :: rest =>
    if unit = '*' ∧ rest.head? = some '/' then [] else unit :: beforeEnd rest

/-- Look at a byte outside of literals, and leave out the comment that begins there. -/
def commentRound (text : List Char) (copying : Copying) (unit : Char) : Except Halt Copying :=
  let units := Text.units text
  let next := units[copying.place + 1]?
  if unit = '"' then return { copying.by 1 with literal := true }
  else if unit = '/' ∧ next = some '/' then do
    let passed ← slice text copying.copied copying.place
    let comment := (units.drop copying.place).takeWhile (· ≠ '\n')
    let place := copying.place + comment.length
    return { copying with place, copied := place, written := copying.written ++ passed }
  else if unit = '/' ∧ next = some '*' then do
    let passed ← slice text copying.copied copying.place
    let comment := beforeEnd (units.drop (copying.place + 2))
    let place := min (copying.place + 2 + comment.length + 2) units.length
    let written := copying.written ++ passed ++ newlinesOf comment
    return { copying with place, copied := place, written }
  else return copying.by 1

/-- Look at a byte outside of literals, and leave it out if it is a comma and the next byte that
is no blank closes an array or an object. -/
def commaRound (text : List Char) (copying : Copying) (unit : Char) : Except Halt Copying :=
  if unit = '"' then return { copying.by 1 with literal := true }
  else if unit = ',' ∧ closesNext ((Text.units text).drop (copying.place + 1)) then do
    let passed ← slice text copying.copied copying.place
    let copied := copying.place + 1
    return { copying.by 1 with copied, written := copying.written ++ passed }
  else return copying.by 1

/-- What a pass does with bytes outside of literals, given the text it goes through. -/
abbrev Round := List Char → Copying → Char → Except Halt Copying

/-- Look at a byte. -/
def advance (round : Round) (text : List Char) (copying : Copying) (unit : Char) :
    Except Halt Copying :=
  if copying.literal then return copying.inLiteral unit else round text copying unit

/-- Go through the bytes that are left, and write the end of the text. -/
def pass (round : Round) (text : List Char) : Nat → Copying → Except Halt (List Char)
  | 0, _ => .error .outOfRounds
  | rounds + 1, copying =>
    match (Text.units text)[copying.place]? with
    | none => do
      let size := Text.byteLength text
      let left ← slice text (min copying.copied size) size
      return copying.written ++ left
    | some unit => do
      let next ← advance round text copying unit
      pass round text rounds next

/-- Remove the comments of a text by byte offsets, in so many rounds. -/
def stripComments (rounds : Nat) (text : List Char) : Except Halt (List Char) :=
  pass commentRound text rounds {}

/-- Remove commas before closing brackets by byte offsets, in so many rounds. -/
def stripTrailingCommas (rounds : Nat) (text : List Char) : Except Halt (List Char) :=
  pass commaRound text rounds {}

/-- Make a text plain by byte offsets, in so many rounds of each pass. -/
def plain (rounds : Nat) (text : List Char) : Except Halt (List Char) := do
  let stripped ← stripComments rounds text
  stripTrailingCommas rounds stripped

/-! ## Going on -/

/-- From here on, a pass comes to the result as soon as it has more rounds than there are bytes
left. -/
def Yields (round : Round) (text : List Char) (copying : Copying) (result : List Char) : Prop :=
  ∀ rounds, Text.byteLength text - copying.place < rounds →
    pass round text rounds copying = .ok result

variable {round : Round} {text result : List Char} {copying next : Copying}

/-- A round that goes further leaves fewer bytes, and so needs no more rounds. The rounds that are
left are counted by the bytes that are left. -/
theorem Yields.step {unit : Char} (found : (Text.units text)[copying.place]? = some unit)
    (advanced : advance round text copying unit = .ok next) (further : copying.place < next.place)
    (later : Yields round text next result) : Yields round text copying result := by
  intro rounds enough
  have inside : copying.place < Text.byteLength text := by
    rw [← Text.length_units]
    exact (List.getElem?_eq_some_iff.mp found).1
  cases rounds with
  | zero => exact absurd enough (Nat.not_lt_zero _)
  | succ rounds =>
    rw [pass]
    simp only [found, advanced, ok_bind]
    exact later rounds (by omega)

/-- At the end it does not matter whether a literal is open or how far behind the end the place
is. -/
theorem Yields.of_ended (later : Yields round text next result)
    (nextEnded : Text.byteLength text ≤ next.place) (ended : Text.byteLength text ≤ copying.place)
    (same : next.copied = copying.copied) (alike : next.written = copying.written) :
    Yields round text copying result := by
  have outside {place : Nat} (behind : Text.byteLength text ≤ place) :
      (Text.units text)[place]? = none := by
    rw [List.getElem?_eq_none_iff, Text.length_units]
    exact behind
  intro rounds enough
  have last := later rounds (by omega)
  cases rounds with
  | zero => exact absurd enough (Nat.not_lt_zero _)
  | succ rounds =>
    rw [pass] at last ⊢
    simp only [outside ended, outside nextEnded, same, alike] at last ⊢
    exact last

/-- A byte from 128 on is no character below 128. -/
theorem ne_of_high {unit c : Char} (high : 128 ≤ unit.toNat) (small : c.toNat < 128) :
    unit ≠ c := by
  rintro rfl
  exact absurd small (Nat.not_lt.mpr high)

/-- The round does nothing with bytes from 128 on. -/
def PassesHigh (round : Round) : Prop :=
  ∀ text copying unit, 128 ≤ unit.toNat → round text copying unit = .ok (copying.by 1)

/-- In a literal and outside of one, bytes from 128 on are passed. -/
theorem PassesHigh.advance (passing : PassesHigh round) (text : List Char) (copying : Copying)
    {unit : Char} (high : 128 ≤ unit.toNat) :
    advance round text copying unit = .ok (copying.by 1) := by
  unfold InPlace.advance
  split
  · rw [Copying.inLiteral, if_neg (ne_of_high high (by decide)),
      if_neg (ne_of_high high (by decide))]
    rfl
  · exact passing text copying unit high

/-- So many bytes from 128 on are passed one after the other. By induction over their number: no
round treats such a byte as anything special. -/
theorem Yields.skip (passing : PassesHigh round) {count : Nat}
    (high : ∀ index < count, ∃ unit, (Text.units text)[copying.place + index]? = some unit ∧
      128 ≤ unit.toNat)
    (later : Yields round text (copying.by count) result) : Yields round text copying result := by
  induction count generalizing copying with
  | zero => exact later
  | succ count inductionHypothesis =>
    obtain ⟨unit, found, isHigh⟩ := high 0 (Nat.succ_pos count)
    refine .step found (passing.advance text copying isHigh) (Nat.lt_succ_self _) ?_
    have moved : (copying.by 1).by count = copying.by (count + 1) := by
      simp only [Copying.by, Nat.add_assoc, Nat.add_comm 1 count]
    refine inductionHypothesis (fun index below => ?_) (moved ▸ later)
    obtain ⟨other, found, isHigh⟩ := high (index + 1) (Nat.succ_lt_succ below)
    refine ⟨other, ?_, isHigh⟩
    rw [← found]
    simp only [Copying.by, Nat.add_assoc, Nat.add_comm 1 index]

/-! ## Places between characters -/

/-- The pass stands behind two parts of the text, of which it has still to write the second. -/
def standing (literal : Bool) (kept passed written : List Char) : Copying where
  literal := literal
  place := Text.byteLength kept + Text.byteLength passed
  copied := Text.byteLength kept
  written := written

section

variable {kept passed written rest : List Char} {literal : Bool}

/-- One character more takes its own bytes more. -/
theorem byteLength_concat (front : List Char) (c : Char) :
    Text.byteLength (front ++ [c]) = Text.byteLength front + c.utf8Size :=
  Text.byteLength_append front [c]

/-- The bytes from the place on are those of the rest of the text. -/
theorem drop_units (split : text = kept ++ (passed ++ rest)) :
    (Text.units text).drop (Text.byteLength kept + Text.byteLength passed) = Text.units rest := by
  rw [split, ← List.append_assoc, Text.units_append, ← Text.byteLength_append,
    ← Text.length_units (kept ++ passed), List.drop_left]

/-- A byte behind the place is the byte with the same number in the rest of the text. -/
theorem getElem?_units (split : text = kept ++ (passed ++ rest)) (index : Nat) :
    (Text.units text)[Text.byteLength kept + Text.byteLength passed + index]? =
      (Text.units rest)[index]? := by
  rw [← drop_units split, List.getElem?_drop]

/-- What has been passed is cut out of the text between characters. -/
theorem slice_passed (split : text = kept ++ (passed ++ rest)) :
    slice text (Text.byteLength kept) (Text.byteLength kept + Text.byteLength passed) =
      .ok passed := by
  rw [slice, split, ← List.append_assoc, ← Text.byteLength_append, cut_byteLength]
  simp only [ok_bind, cut_byteLength, pure_eq_ok]

/-- At the end of the text, what has been passed is written. The offset is that of the end then, so
no byte is found and one last slice is taken. -/
theorem yields_ended (split : text = kept ++ passed) :
    Yields round text (standing literal kept passed written) (written ++ passed) := by
  intro rounds enough
  have size : Text.byteLength text = Text.byteLength kept + Text.byteLength passed := by
    rw [split, Text.byteLength_append]
  have behind : (Text.units text)[(standing literal kept passed written).place]? = none := by
    rw [List.getElem?_eq_none_iff, Text.length_units, size]
    exact Nat.le_refl _
  have least : min (Text.byteLength kept) (Text.byteLength text) = Text.byteLength kept := by
    omega
  cases rounds with
  | zero => exact absurd enough (Nat.not_lt_zero _)
  | succ rounds =>
    rw [pass]
    have whole : text = kept ++ (passed ++ []) := by rw [split, List.append_nil]
    simp only [behind]
    simp only [standing, least]
    rw [size, slice_passed whole]
    rfl

/-- A character is passed when its byte is, or when it has several bytes. A character with one byte
is passed by the round for that byte. All bytes of any other are 128 at least, and the rounds leave
such bytes alone. -/
theorem Yields.character {c : Char} (passing : PassesHigh round)
    (split : text = kept ++ (passed ++ c :: rest))
    (single : c.toNat < 128 → advance round text (standing literal kept passed written) c =
      .ok ((standing literal kept passed written).by 1))
    (later : Yields round text (standing literal kept (passed ++ [c]) written) result) :
    Yields round text (standing literal kept passed written) result := by
  have behind : (standing literal kept passed written).by c.utf8Size =
      standing literal kept (passed ++ [c]) written := by
    simp only [Copying.by, standing, byteLength_concat, Nat.add_assoc]
  have shown (index : Nat) : index < c.utf8Size →
      (Text.units text)[(standing literal kept passed written).place + index]? =
        (Text.unitsOf c)[index]? := by
    intro within
    rw [standing, getElem?_units split, Text.units_cons, List.getElem?_append_left]
    rw [Text.length_unitsOf]
    exact within
  rcases Nat.lt_or_ge c.toNat 128 with small | large
  · have size := Escape.utf8Size_of_toNat_lt small
    rw [size] at behind
    have found := shown 0 c.utf8Size_pos
    rw [Text.unitsOf_of_lt small] at found
    exact .step found (single small) (Nat.lt_succ_self _) (behind ▸ later)
  · refine .skip passing (fun index within => ?_) (behind ▸ later)
    have bound : index < (Text.unitsOf c).length := by
      rw [Text.length_unitsOf]
      exact within
    refine ⟨(Text.unitsOf c)[index], ?_, Text.le_of_mem_unitsOf large (List.getElem_mem bound)⟩
    rw [shown index within, List.getElem?_eq_getElem bound]

/-- A character below 128 is found at the place as its own byte. -/
theorem found_single {c : Char} (small : c.toNat < 128)
    (split : text = kept ++ (passed ++ c :: rest)) :
    (Text.units text)[(standing literal kept passed written).place]? = some c := by
  have found := getElem?_units split 0
  rw [Text.units_cons, Text.unitsOf_of_lt small] at found
  exact found

/-- The byte behind a character below 128 is the first one of the rest of the text. -/
theorem found_next {c : Char} (small : c.toNat < 128)
    (split : text = kept ++ (passed ++ c :: rest)) :
    (Text.units text)[(standing literal kept passed written).place + 1]? =
      (Text.units rest).head? := by
  have found := getElem?_units split 1
  rw [Text.units_cons, Text.unitsOf_of_lt small, List.singleton_append,
    List.getElem?_cons_succ, ← List.head?_eq_getElem?] at found
  exact found

/-- Behind a character below 128, the bytes are those of the rest of the text. -/
theorem drop_behind {c : Char} (small : c.toNat < 128)
    (split : text = kept ++ (passed ++ c :: rest)) :
    (Text.units text).drop ((standing literal kept passed written).place + 1) =
      Text.units rest := by
  rw [← List.drop_drop, standing, drop_units split, Text.units_cons, Text.unitsOf_of_lt small]
  rfl

/-- A character below 128 is passed in one round, which may begin or end a literal. What was passed
grows by the character, and the offset by one. -/
theorem Yields.single {c : Char} (small : c.toNat < 128)
    (split : text = kept ++ (passed ++ c :: rest)) {other : Bool}
    (advanced : advance round text (standing literal kept passed written) c =
      .ok { (standing literal kept passed written).by 1 with literal := other })
    (later : Yields round text (standing other kept (passed ++ [c]) written) result) :
    Yields round text (standing literal kept passed written) result := by
  have behind : { (standing literal kept passed written).by 1 with literal := other } =
      standing other kept (passed ++ [c]) written := by
    simp only [Copying.by, standing, byteLength_concat, Escape.utf8Size_of_toNat_lt small,
      Nat.add_assoc]
  rw [behind] at advanced
  refine .step (found_single small split) advanced ?_ later
  simp only [standing, byteLength_concat, Escape.utf8Size_of_toNat_lt small]
  omega

/-! ## Literals -/

/-- A backslash is passed together with the character behind it. The place is then behind the
first byte of this character, the others of which are passed one after the other. -/
theorem Yields.escaped {c : Char} (passing : PassesHigh round)
    (split : text = kept ++ (passed ++ '\\' :: c :: rest))
    (later : Yields round text (standing true kept (passed ++ ['\\', c]) written) result) :
    Yields round text (standing true kept passed written) result := by
  have small : '\\'.toNat < 128 := by decide
  have positive := c.utf8Size_pos
  have size : Text.byteLength (passed ++ ['\\', c]) =
      Text.byteLength passed + (1 + c.utf8Size) :=
    Text.byteLength_append passed ['\\', c]
  have behind : ((standing true kept passed written).by 2).by (c.utf8Size - 1) =
      standing true kept (passed ++ ['\\', c]) written := by
    simp only [Copying.by, standing, size, Copying.mk.injEq, true_and, and_true]
    omega
  have moved : advance round text (standing true kept passed written) '\\' =
      .ok ((standing true kept passed written).by 2) := rfl
  refine .step (found_single small split) moved (Nat.lt_add_of_pos_right Nat.two_pos) ?_
  refine .skip passing (fun index within => ?_) (behind.symm ▸ later)
  have bound : index + 1 < (Text.unitsOf c).length := by
    rw [Text.length_unitsOf]
    omega
  have found : (Text.unitsOf c)[index + 1]? = some (Text.unitsOf c)[index + 1] :=
    List.getElem?_eq_getElem bound
  refine ⟨_, ?_, Text.le_of_getElem?_unitsOf found⟩
  have shown := getElem?_units split (index + 2)
  rw [Text.units_cons, Text.unitsOf_of_lt small, List.singleton_append,
    List.getElem?_cons_succ, Text.units_cons, List.getElem?_append_left bound, found] at shown
  rw [← shown]
  simp only [Copying.by, standing, Nat.add_assoc, Nat.add_comm 2 index]

/-- A literal is passed up to its end, or up to the end of the text. There it does not matter that
the literal is still open, or that a backslash takes the place behind the end. -/
theorem Yields.throughQuote (passing : PassesHigh round)
    (split : text = kept ++ (passed ++ rest))
    (later : Yields round text
      (standing false kept (passed ++ (Json.throughQuote rest).1) written) result) :
    Yields round text (standing true kept passed written) result := by
  fun_induction Json.throughQuote rest generalizing passed with
  | case1 =>
    rw [List.append_nil] at split later
    have size : Text.byteLength text = Text.byteLength kept + Text.byteLength passed := by
      rw [split, Text.byteLength_append]
    exact later.of_ended (le_of_eq size) (le_of_eq size) rfl rfl
  | case2 rest => exact .single (by decide) split rfl later
  | case3 c rest inductionHypothesis =>
    refine .escaped passing split (inductionHypothesis ?_ ?_)
    · rw [split, List.append_assoc passed]
      rfl
    · rw [List.append_assoc passed]
      exact later
  | case4 c rest unquoted unescaped inductionHypothesis =>
    by_cases backslash : c = '\\'
    · cases rest with
      | cons d more => exact (unescaped d more backslash rfl).elim
      | nil =>
        subst backslash
        have size : Text.byteLength text =
            Text.byteLength kept + Text.byteLength (passed ++ ['\\']) := by
          rw [split, Text.byteLength_append]
        have moved : advance round text (standing true kept passed written) '\\' =
            .ok ((standing true kept passed written).by 2) := rfl
        refine .step (found_single (by decide) split) moved
          (Nat.lt_add_of_pos_right Nat.two_pos) ?_
        refine later.of_ended (le_of_eq size) ?_ rfl rfl
        rw [size, byteLength_concat]
        exact Nat.add_le_add_left (Nat.le_succ _) _
    · refine .character passing split (fun _ => ?_) (inductionHypothesis ?_ ?_)
      · simp only [advance, standing, if_true, Copying.inLiteral, if_neg backslash,
          if_neg unquoted]
        rfl
      · rw [split, List.append_assoc passed]
        rfl
      · rw [List.append_assoc passed]
        exact later

/-! ## Comments -/

/-- Bytes that are no stars do not end a block comment. -/
theorem beforeEnd_append {front : List Char} (starless : ∀ unit ∈ front, unit ≠ '*')
    (behind : List Char) : beforeEnd (front ++ behind) = front ++ beforeEnd behind := by
  induction front with
  | nil => rfl
  | cons unit others inductionHypothesis =>
    obtain ⟨first, later⟩ := List.forall_mem_cons.mp starless
    rw [List.cons_append, beforeEnd, if_neg fun marks => first marks.1,
      inductionHypothesis later, List.cons_append]

/-- The end of a block comment is found by bytes where it is found by characters. What stands in
front of it is the whole comment when there is none. -/
theorem beforeEnd_units (rest : List Char) :
    ∃ body, beforeEnd (Text.units rest) = Text.units body ∧
      (Json.throughEnd rest = (body, []) ∨ (Json.throughEnd rest).1 = body ++ ['*', '/']) := by
  fun_induction Json.throughEnd rest with
  | case1 => exact ⟨[], rfl, .inl rfl⟩
  | case2 rest =>
    refine ⟨[], ?_, .inr rfl⟩
    rw [Text.units_cons, Text.units_cons, Text.unitsOf_of_lt (by decide),
      Text.unitsOf_of_lt (by decide)]
    rfl
  | case3 c rest unended inductionHypothesis =>
    obtain ⟨body, found, ends⟩ := inductionHypothesis
    refine ⟨c :: body, ?_, ?_⟩
    · rw [Text.units_cons, Text.units_cons, ← found]
      by_cases star : c = '*'
      · subst star
        have further : (Text.units rest).head? ≠ some '/' := by
          rw [ne_eq, Text.head?_units_iff (by decide)]
          intro slash
          obtain ⟨behind, rfl⟩ := List.head?_eq_some_iff.mp slash
          exact unended behind rfl rfl
        rw [Text.unitsOf_of_lt (by decide), List.singleton_append, beforeEnd,
          if_neg fun marks => further marks.2, List.singleton_append]
      · have starless : ∀ unit ∈ Text.unitsOf c, unit ≠ '*' := by
          intro unit member same
          exact star ((Text.eq_iff_of_mem_unitsOf (by decide) member).mp same)
        exact beforeEnd_append starless _
    · rcases ends with all | closed
      · exact .inl (by rw [all])
      · exact .inr (by rw [closed, List.cons_append])

/-- The two bytes of the end are counted behind what is in front of it, but not past the end of the
text, where the comment has no end. -/
theorem min_byteLength_throughEnd {rest body : List Char}
    (ends : Json.throughEnd rest = (body, []) ∨ (Json.throughEnd rest).1 = body ++ ['*', '/']) :
    min (Text.byteLength body + 2) (Text.byteLength rest) =
      Text.byteLength (Json.throughEnd rest).1 := by
  have parts := congrArg Text.byteLength (throughEnd_flatten rest)
  rw [Text.byteLength_append] at parts
  rcases ends with all | closed
  · have none : Text.byteLength ([] : List Char) = 0 := rfl
    simp only [all, none] at parts ⊢
    omega
  · have marked : Text.byteLength (body ++ ['*', '/']) = Text.byteLength body + 2 :=
      Text.byteLength_append body ['*', '/']
    rw [closed, marked] at parts ⊢
    omega

/-- The two marks of a block comment are no newlines. -/
theorem newlinesOf_block {rest body : List Char}
    (ends : Json.throughEnd rest = (body, []) ∨ (Json.throughEnd rest).1 = body ++ ['*', '/']) :
    newlinesOf ('/' :: '*' :: (Json.throughEnd rest).1) = newlinesOf body := by
  rcases ends with all | closed
  · simp [newlinesOf, all]
  · simp [newlinesOf, closed]

/-- The newlines among the bytes of a text are those of the text. By induction over the characters:
a newline is one byte, and the bytes of no other character are newlines. -/
theorem newlinesOf_units (body : List Char) : newlinesOf (Text.units body) = newlinesOf body := by
  induction body with
  | nil => rfl
  | cons c rest inductionHypothesis =>
    have first : newlinesOf (Text.unitsOf c) = newlinesOf [c] := by
      by_cases newline : c = '\n'
      · rw [newline, Text.unitsOf_of_lt (by decide)]
      · have none : ∀ unit ∈ Text.unitsOf c, ¬ decide (unit = '\n') = true := by
          intro unit member
          rw [decide_eq_true_eq, Text.eq_iff_of_mem_unitsOf (by decide) member]
          exact newline
        rw [newlinesOf, List.filter_eq_nil_iff.mpr none, newlinesOf,
          List.filter_cons_of_neg (by simpa using newline), List.filter_nil]
    have both (front behind : List Char) :
        newlinesOf (front ++ behind) = newlinesOf front ++ newlinesOf behind :=
      List.filter_append ..
    rw [Text.units_cons, both, first, inductionHypothesis, ← both, List.singleton_append]

/-- The removal of comments only looks for quotes, slashes and stars, and passes all bytes from 128
on. -/
theorem passesHigh_commentRound : PassesHigh commentRound := by
  intro text copying unit high
  have unquoted : unit ≠ '"' := ne_of_high high (by decide)
  have other : unit ≠ '/' := ne_of_high high (by decide)
  simp only [commentRound, unquoted, other, false_and, if_false]
  rfl

/-- The mark that begins a comment takes two bytes. -/
theorem byteLength_mark {c : Char} (small : c.toNat < 128) (comment : List Char) :
    Text.byteLength ('/' :: c :: comment) = 2 + Text.byteLength comment := by
  have slash : '/'.utf8Size = 1 := rfl
  rw [Text.byteLength, Text.byteLength, slash, Escape.utf8Size_of_toNat_lt small, ← Nat.add_assoc]

/-- A line comment has no newlines. -/
theorem newlinesOf_line (rest : List Char) :
    newlinesOf ('/' :: '/' :: rest.takeWhile (· ≠ '\n')) = [] := by
  rw [newlinesOf, List.filter_cons_of_neg (by decide), List.filter_cons_of_neg (by decide),
    List.filter_eq_nil_iff]
  intro c member
  simpa using List.mem_takeWhile_imp member

/-- A line comment is left out up to the newline that ends it. The newline is looked for among the
bytes, and found where it is among the characters. What was passed before the comment is written. -/
theorem commentRound_line (split : text = kept ++ (passed ++ '/' :: '/' :: rest)) :
    commentRound text (standing false kept passed written) '/' =
      .ok (standing false (kept ++ passed ++ '/' :: '/' :: rest.takeWhile (· ≠ '\n')) []
        (written ++ passed)) := by
  have small : '/'.toNat < 128 := by decide
  have next : (Text.units text)[(standing false kept passed written).place + 1]? = some '/' := by
    rw [found_next small split, Text.head?_units_iff small]
    rfl
  have comment : ((Text.units text).drop (standing false kept passed written).place).takeWhile
      (· ≠ '\n') = Text.units ('/' :: '/' :: rest.takeWhile (· ≠ '\n')) := by
    rw [standing, drop_units split, Text.takeWhile_units (by decide)]
    simp
  have part := slice_passed split
  simp only [commentRound, next]
  rw [comment]
  simp only [standing, part, ok_bind, Text.length_units]
  simp [Text.byteLength_append, Text.byteLength]
  omega

/-- A block comment is left out with its end, if it has one, and its newlines are written. The
search for the end goes through bytes, and finds the place that the search through characters finds,
since the two characters of the end are bytes of their own. -/
theorem commentRound_block (split : text = kept ++ (passed ++ '/' :: '*' :: rest)) :
    commentRound text (standing false kept passed written) '/' =
      .ok (standing false (kept ++ passed ++ '/' :: '*' :: (Json.throughEnd rest).1) []
        (written ++ passed ++ newlinesOf ('/' :: '*' :: (Json.throughEnd rest).1))) := by
  have next : (Text.units text)[(standing false kept passed written).place + 1]? = some '*' := by
    rw [found_next (by decide) split, Text.head?_units_iff (by decide)]
    rfl
  obtain ⟨body, found, ends⟩ := beforeEnd_units rest
  have inside : (Text.units text).drop ((standing false kept passed written).place + 2) =
      Text.units rest := by
    change (Text.units text).drop ((standing false kept passed written).place + 1 + 1) = _
    rw [← List.drop_drop, drop_behind (by decide) split, Text.units_cons,
      Text.unitsOf_of_lt (by decide)]
    rfl
  have part := slice_passed split
  have size : Text.byteLength text =
      Text.byteLength kept + Text.byteLength passed + 2 + Text.byteLength rest := by
    rw [split, Text.byteLength_append, Text.byteLength_append, byteLength_mark (by decide)]
    omega
  have comment : Text.byteLength (kept ++ passed ++ '/' :: '*' :: (Json.throughEnd rest).1) =
      Text.byteLength kept + Text.byteLength passed + 2 +
        Text.byteLength (Json.throughEnd rest).1 := by
    rw [Text.byteLength_append, Text.byteLength_append, byteLength_mark (by decide)]
    omega
  have least : min (Text.byteLength kept + Text.byteLength passed + 2 + Text.byteLength body + 2)
      (Text.byteLength text) =
      Text.byteLength (kept ++ passed ++ '/' :: '*' :: (Json.throughEnd rest).1) := by
    have behind := min_byteLength_throughEnd ends
    omega
  simp only [commentRound, next]
  rw [inside, found, newlinesOf_block ends]
  simp only [standing, part, ok_bind, Text.length_units, newlinesOf_units, least]
  simp [Text.byteLength]

/-- A character that begins neither a literal nor a comment is passed. The byte behind a slash is the
first one of the next character, and that is a slash or a star only if the character is. -/
theorem commentRound_passes {c : Char} (small : c.toNat < 128) (unquoted : c ≠ '"')
    (slashes : ∀ others, c = '/' → rest = '/' :: others → False)
    (starred : ∀ others, c = '/' → rest = '*' :: others → False)
    (split : text = kept ++ (passed ++ c :: rest)) :
    commentRound text (standing false kept passed written) c =
      .ok ((standing false kept passed written).by 1) := by
  have next : (Text.units text)[(standing false kept passed written).place + 1]? =
      (Text.units rest).head? := found_next small split
  have noSlash : ¬ (c = '/' ∧ (Text.units rest).head? = some '/') := by
    rintro ⟨slash, second⟩
    rw [Text.head?_units_iff (by decide), List.head?_eq_some_iff] at second
    obtain ⟨others, same⟩ := second
    exact slashes others slash same
  have noStar : ¬ (c = '/' ∧ (Text.units rest).head? = some '*') := by
    rintro ⟨slash, second⟩
    rw [Text.head?_units_iff (by decide), List.head?_eq_some_iff] at second
    obtain ⟨others, same⟩ := second
    exact starred others slash same
  simp only [commentRound, next, if_neg noSlash, if_neg noStar, if_neg unquoted]
  rfl

/-- From each place outside of literals and comments, the rest of the text is written without its
comments. -/
theorem yields_comments (split : text = kept ++ (passed ++ rest)) :
    Yields commentRound text (standing false kept passed written)
      (written ++ passed ++ replaceComments newlinesOf rest) := by
  induction rest using fragments.induct generalizing kept passed written with
  | case1 =>
    rw [replaceComments_nil, List.append_nil]
    exact yields_ended (by rw [split, List.append_nil])
  | case2 rest inductionHypothesis =>
    have begun : advance commentRound text (standing false kept passed written) '"' =
        .ok { (standing false kept passed written).by 1 with literal := true } := rfl
    have inside : text = kept ++ ((passed ++ ['"']) ++ rest) := by simp [split]
    have behind : text = kept ++
        ((passed ++ ['"'] ++ (Json.throughQuote rest).1) ++ (Json.throughQuote rest).2) := by
      simp [split, throughQuote_flatten]
    refine .single (by decide) split begun (.throughQuote passesHigh_commentRound inside ?_)
    simpa [replaceComments_quote] using inductionHypothesis behind
  | case3 rest inductionHypothesis =>
    have behind : text = (kept ++ passed ++ '/' :: '/' :: rest.takeWhile (· ≠ '\n')) ++
        ([] ++ rest.dropWhile (· ≠ '\n')) := by
      simp [split]
    refine .step (found_single (by decide) split) (commentRound_line split) ?_ ?_
    · simp only [standing, Text.byteLength_append, byteLength_mark (by decide : '/'.toNat < 128)]
      omega
    · have later : Yields commentRound text (standing false _ [] (written ++ passed)) _ :=
        inductionHypothesis behind
      rw [replaceComments_line, newlinesOf_line]
      simpa using later
  | case4 rest inductionHypothesis =>
    have behind : text = (kept ++ passed ++ '/' :: '*' :: (Json.throughEnd rest).1) ++
        ([] ++ (Json.throughEnd rest).2) := by
      simp [split, throughEnd_flatten]
    refine .step (found_single (by decide) split) (commentRound_block split) ?_ ?_
    · simp only [standing, Text.byteLength_append, byteLength_mark (by decide : '*'.toNat < 128)]
      omega
    · have later : Yields commentRound text (standing false _ [] (written ++ passed ++
          newlinesOf ('/' :: '*' :: (Json.throughEnd rest).1))) _ :=
        inductionHypothesis behind
      simpa [replaceComments_block] using later
  | case5 c rest unquoted slashes starred inductionHypothesis =>
    have behind : text = kept ++ ((passed ++ [c]) ++ rest) := by simp [split]
    rw [replaceComments_cons newlinesOf unquoted slashes starred]
    refine .character passesHigh_commentRound split (fun small => ?_) ?_
    · exact commentRound_passes small unquoted slashes starred split
    · simpa using inductionHypothesis behind

/-! ## Commas -/

/-- The blanks behind a comma are characters below 128. -/
theorem toNat_lt_of_isSpacing {c : Char} (spacing : isSpacing c) : c.toNat < 128 := by
  simp only [isSpacing, Bool.or_eq_true, decide_eq_true_eq] at spacing
  rcases spacing with (((rfl | rfl) | rfl) | rfl) | rfl <;> decide

/-- The closing brackets are characters below 128. -/
theorem toNat_lt_of_isClosing {c : Char} (closing : isClosing [c]) : c.toNat < 128 := by
  simp only [isClosing, Bool.or_eq_true, decide_eq_true_eq, List.cons.injEq, and_true] at closing
  rcases closing with rfl | rfl <;> decide

/-- Whether a closing bracket comes next is found by bytes as it is by characters. By induction over
the blanks in front. The first character behind them is known by its first byte, since closing
brackets are below 128. -/
theorem closesNext_units (rest : List Char) : closesNext (Text.units rest) = closesNext rest := by
  induction rest with
  | nil => rfl
  | cons c rest inductionHypothesis =>
    cases spacing : isSpacing c with
    | true =>
      rw [closesNext_cons_of_isSpacing spacing, Text.units_cons,
        Text.unitsOf_of_lt (toNat_lt_of_isSpacing spacing), List.singleton_append,
        closesNext_cons_of_isSpacing spacing, inductionHypothesis]
    | false =>
      obtain ⟨others, shown⟩ := Text.unitsOf_eq_cons c
      have visible : isSpacing (Text.leading c) = false := by
        have alike := Text.leading_iff (isSpacing · = true) (fun _ => toNat_lt_of_isSpacing) c
        rw [← Bool.not_eq_true, alike, spacing]
        exact Bool.false_ne_true
      have closes := Text.leading_iff (isClosing [·] = true) (fun _ => toNat_lt_of_isClosing) c
      rw [closesNext_cons spacing, Text.units_cons, shown, List.cons_append,
        closesNext_cons visible, Bool.eq_iff_iff, closes]

/-- The removal of commas only looks for quotes and commas, and passes all bytes from 128 on. -/
theorem passesHigh_commaRound : PassesHigh commaRound := by
  intro text copying unit high
  have unquoted : unit ≠ '"' := ne_of_high high (by decide)
  have other : unit ≠ ',' := ne_of_high high (by decide)
  simp only [commaRound, unquoted, other, false_and, if_false]
  rfl

/-- A comma in front of a closing bracket is left out, and what was passed before it is written. -/
theorem commaRound_leaves (closes : closesNext rest)
    (split : text = kept ++ (passed ++ ',' :: rest)) :
    commaRound text (standing false kept passed written) ',' =
      .ok (standing false (kept ++ passed ++ [',']) [] (written ++ passed)) := by
  have next : closesNext ((Text.units text).drop
      ((standing false kept passed written).place + 1)) = true := by
    rw [drop_behind (by decide) split, closesNext_units, closes]
  have size : Text.byteLength (kept ++ passed ++ [',']) =
      Text.byteLength kept + Text.byteLength passed + 1 := by
    rw [byteLength_concat, Text.byteLength_append]
    rfl
  rw [commaRound, if_neg (by decide), if_pos ⟨rfl, next⟩]
  simp only [standing, slice_passed split, ok_bind, pure_eq_ok, Copying.by, size]
  rfl

/-- A character that begins no literal is passed, unless it is a comma that goes. -/
theorem commaRound_passes {c : Char} (small : c.toNat < 128) (unquoted : c ≠ '"')
    (stays : c = ',' → ¬ closesNext rest) (split : text = kept ++ (passed ++ c :: rest)) :
    commaRound text (standing false kept passed written) c =
      .ok ((standing false kept passed written).by 1) := by
  have next : ¬ (c = ',' ∧ closesNext ((Text.units text).drop
      ((standing false kept passed written).place + 1))) := by
    rintro ⟨comma, closes⟩
    rw [drop_behind small split, closesNext_units] at closes
    exact stays comma closes
  rw [commaRound, if_neg unquoted, if_neg next]
  rfl

/-- From each place outside of literals, the rest of the text is written without the commas that
go. -/
theorem yields_commas (split : text = kept ++ (passed ++ rest)) :
    Yields commaRound text (standing false kept passed written)
      (written ++ passed ++ unpadded false rest) := by
  induction rest using quoted.induct generalizing kept passed written with
  | case1 =>
    rw [unpadded, List.append_nil]
    exact yields_ended (by rw [split, List.append_nil])
  | case2 rest inductionHypothesis =>
    have begun : advance commaRound text (standing false kept passed written) '"' =
        .ok { (standing false kept passed written).by 1 with literal := true } := rfl
    have inside : text = kept ++ ((passed ++ ['"']) ++ rest) := by simp [split]
    have behind : text = kept ++
        ((passed ++ ['"'] ++ (Json.throughQuote rest).1) ++ (Json.throughQuote rest).2) := by
      simp [split, throughQuote_flatten]
    refine .single (by decide) split begun (.throughQuote passesHigh_commaRound inside ?_)
    rw [unpadded, unpadded_literal_eq]
    simpa using inductionHypothesis behind
  | case3 c rest unquoted inductionHypothesis =>
    have behind : text = kept ++ ((passed ++ [c]) ++ rest) := by simp [split]
    have passes (stays : c = ',' → ¬ closesNext rest) :
        Yields commaRound text (standing false kept passed written)
          (written ++ passed ++ c :: unpadded false rest) := by
      refine .character passesHigh_commaRound split (fun small => ?_) ?_
      · exact commaRound_passes small unquoted stays split
      · simpa using inductionHypothesis behind
    by_cases comma : c = ','
    · subst comma
      rw [unpadded]
      split
      · rename_i closes
        have left : text = (kept ++ passed ++ [',']) ++ ([] ++ rest) := by simp [split]
        have later : Yields commaRound text (standing false _ [] (written ++ passed)) _ :=
          inductionHypothesis left
        refine .step (found_single (by decide) split) (commaRound_leaves closes split) ?_ ?_
        · simp only [standing, Text.byteLength_append]
          exact Nat.lt_succ_self _
        · simpa using later
      · rename_i stays
        exact passes fun _ => stays
    · rw [unpadded_code_cons unquoted comma]
      exact passes fun same => absurd same comma

end

/-! ## Both passes -/

variable {rounds : Nat}

/-- Removing comments by bytes is removing them by characters. -/
theorem stripComments_eq_ok (enough : Text.byteLength text < rounds) :
    stripComments rounds text = .ok (Json.stripComments text) := by
  have whole : text = [] ++ ([] ++ text) := rfl
  rw [Json.stripComments_eq]
  exact yields_comments whole rounds enough

/-- Removing commas by bytes is removing them by characters. -/
theorem stripTrailingCommas_eq_ok (enough : Text.byteLength text < rounds) :
    stripTrailingCommas rounds text = .ok (Json.stripTrailingCommas text) := by
  have whole : text = [] ++ ([] ++ text) := rfl
  exact yields_commas whole rounds enough

/-- Leaving characters out leaves bytes out. -/
theorem byteLength_le_of_thinned {thin text : List Char} (thinned : Thinned thin text) :
    Text.byteLength thin ≤ Text.byteLength text := by
  induction thinned with
  | nil => exact Nat.le_refl 0
  | keep _ inductionHypothesis => exact Nat.add_le_add_left inductionHypothesis _
  | leave _ _ inductionHypothesis => exact Nat.le_add_left_of_le inductionHypothesis

/-- With more rounds than the text has bytes, making it plain by bytes comes to an end, cuts no
character apart, and gives the plain text. -/
theorem plain_eq_ok (enough : Text.byteLength text < rounds) :
    plain rounds text = .ok (Json.plain text) := by
  have fewer := byteLength_le_of_thinned (stripComments_thinned text)
  rw [plain, stripComments_eq_ok enough, ok_bind,
    stripTrailingCommas_eq_ok (lt_of_le_of_lt fewer enough), Json.plain]

end InPlace

end Json

end Parlance
