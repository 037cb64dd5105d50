import Mathlib.Order.Bounds.Basic
import Parlance.Proofs.Escape.InPlace
import Parlance.Proofs.Lexer.Blanks

/-!
# Where a region ends

A region of a text that begins with the rule's pattern ends between two characters of the
text, not before the pattern does and not behind the text, so the lexer goes on by at least
one character whatever the rule computes.

An end pattern counts at the characters that take no part in escaping. Escape characters
take turns: one that is not protected itself protects the character behind it, so of several
in a row every other one does. `Protects` says this by the place alone, and the region is
shown to end behind the first place where the end pattern counts.

A computed length may be any number. It is brought between the length of the pattern and that
of the text, and moved up to the next place between two characters.

All this can be done with byte offsets into the text, at which the text is cut to look for
the end pattern. No cut falls into a character, and a computed length is moved up by at most
three bytes.
-/

namespace Parlance

/-! ## Places in a text -/

namespace Text

/-- The number of bytes leads to a place between two characters of the text, or to one of its
ends. -/
def Boundary (text : List Char) (bytes : Nat) : Prop :=
  ∃ front, front <+: text ∧ byteLength front = bytes

/-- Any number of characters from the start leads to a boundary. -/
theorem boundary_take (count : Nat) (text : List Char) :
    Boundary text (byteLength (text.take count)) :=
  ⟨text.take count, List.take_prefix count text, rfl⟩

/-- No place in a text is behind its end. -/
theorem Boundary.le {text : List Char} {bytes : Nat} (boundary : Boundary text bytes) :
    bytes ≤ byteLength text := by
  obtain ⟨front, ⟨behind, rfl⟩, rfl⟩ := boundary
  rw [byteLength_append]
  exact Nat.le_add_right _ _

/-- The text can be cut at just these places. Cutting goes through the text character by character,
and gives up inside the one that has the offset in it. -/
theorem isSome_cut?_iff {offset : Nat} {text : List Char} :
    (cut? offset text).isSome ↔ Boundary text offset := by
  constructor
  · intro divided
    induction text generalizing offset with
    | nil =>
      obtain rfl : offset = 0 := by simpa [cut?] using divided
      exact boundary_take 0 []
    | cons c rest inductionHypothesis =>
      rw [cut?] at divided
      split at divided
      · rename_i start
        exact start ▸ boundary_take 0 (c :: rest)
      · split at divided
        · rename_i enough
          rw [Option.isSome_map] at divided
          obtain ⟨front, begins, bytes⟩ := inductionHypothesis divided
          refine ⟨c :: front, List.cons_prefix_cons.mpr ⟨rfl, begins⟩, ?_⟩
          rw [byteLength, bytes]
          omega
        · cases divided
  · rintro ⟨front, ⟨behind, rfl⟩, rfl⟩
    rw [cut?_byteLength]
    rfl

/-- The characters that reach a number of bytes end at the first place that is not before
it. -/
theorem covering_isLeast {bytes : Nat} {text : List Char} (enough : bytes ≤ byteLength text) :
    IsLeast { boundary | Boundary text boundary ∧ bytes ≤ boundary }
      (byteLength (text.take (covering bytes text))) := by
  refine ⟨⟨boundary_take _ text, ?_⟩, ?_⟩
  · induction text generalizing bytes with
    | nil => simpa [covering] using enough
    | cons c rest inductionHypothesis =>
      by_cases none : bytes = 0
      · rw [none]
        exact Nat.zero_le _
      · rw [byteLength] at enough
        have within : bytes - c.utf8Size ≤ byteLength rest := by omega
        have later := inductionHypothesis within
        rw [covering, if_neg none, Nat.add_comm, List.take_succ_cons, byteLength]
        omega
  · rintro _ ⟨⟨front, begins, rfl⟩, reaches⟩
    induction text generalizing bytes front with
    | nil => simp [covering, byteLength]
    | cons c rest inductionHypothesis =>
      by_cases none : bytes = 0
      · simp [none, covering, byteLength]
      · cases front with
        | nil => exact absurd (Nat.le_zero.mp reaches) none
        | cons d others =>
          obtain ⟨rfl, further⟩ := List.cons_prefix_cons.mp begins
          rw [byteLength] at enough reaches
          have within : bytes - d.utf8Size ≤ byteLength rest := by omega
          have later := inductionHypothesis within others further (by omega)
          rw [covering, if_neg none, Nat.add_comm, List.take_succ_cons, byteLength, byteLength]
          omega

/-- No character has more than four bytes, so the next place is at most three bytes on. By induction
over the characters: only the last one that is taken can reach behind the given number of bytes. -/
theorem byteLength_covering_lt (bytes : Nat) (text : List Char) :
    byteLength (text.take (covering bytes text)) < bytes + 4 := by
  induction text generalizing bytes with
  | nil => simp [covering, byteLength]
  | cons c rest inductionHypothesis =>
    by_cases none : bytes = 0
    · simp [none, covering, byteLength]
    · rw [covering, if_neg none, Nat.add_comm, List.take_succ_cons, byteLength]
      have small : c.utf8Size ≤ 4 := c.utf8Size_le_four
      rcases Nat.lt_or_ge c.utf8Size bytes with more | last
      · have later := inductionHypothesis (bytes - c.utf8Size)
        omega
      · have reached : covering (bytes - c.utf8Size) rest = 0 := by
          rw [Nat.sub_eq_zero_of_le last]
          cases rest <;> rfl
        rw [reached, List.take_zero, byteLength]
        omega

end Text

namespace Rule

/-! ## Escaping -/

/-- The escape character stands at the place. -/
def Escapes (escape : Option Char) (text : List Char) (place : Nat) : Prop :=
  ∃ c, escape = some c ∧ text[place]? = some c

/-- The character at the place protects the one behind it: it is an escape character, and the
one before it does not protect it. -/
def Protects (escape : Option Char) (text : List Char) : Nat → Prop
  | 0 => Escapes escape text 0
  | place + 1 => Escapes escape text (place + 1) ∧ ¬ Protects escape text place

/-- An end pattern stands at a character that neither protects another nor is protected. -/
structure EndsAt (escape : Option Char) (final text : List Char) (place : Nat) : Prop where
  inside : place < text.length
  free : ¬ Protects escape text place
  unprotected : ∀ before, place = before + 1 → ¬ Protects escape text before
  begins : final <+: text.drop place

/-- The end pattern stands at the place and at no place before it. -/
structure EndsFirst (escape : Option Char) (final text : List Char) (place : Nat) : Prop where
  ends : EndsAt escape final text place
  first : ∀ earlier < place, ¬ EndsAt escape final text earlier

/-- So many characters of the text reach behind the first end pattern, or are all of the text
and there is none. -/
def EndsBehind (escape : Option Char) (final text : List Char) (count : Nat) : Prop :=
  (∃ place, EndsFirst escape final text place ∧ count = place + final.length) ∨
    (∀ place, ¬ EndsAt escape final text place) ∧ count = text.length

section

variable {escape : Option Char} {final rest : List Char} {c next : Char}

/-- The first character protects the second exactly if it is the escape character, as nothing can
protect it. -/
theorem protects_zero_iff : Protects escape (c :: rest) 0 ↔ escape = some c := by
  simp [Protects, Escapes]

/-- Where the escape character stands does not depend on what comes before. -/
theorem escapes_cons_iff {place : Nat} :
    Escapes escape (c :: rest) (place + 1) ↔ Escapes escape rest place := by
  simp [Escapes]

/-- Behind a character that escapes nothing, escaping begins anew. -/
theorem protects_unescaped_iff (plain : escape ≠ some c) (place : Nat) :
    Protects escape (c :: rest) (place + 1) ↔ Protects escape rest place := by
  induction place with
  | zero => simp [Protects, Escapes, plain]
  | succ place inductionHypothesis =>
    rw [Protects, escapes_cons_iff, inductionHypothesis, Protects]

/-- Behind a character that is escaped, escaping begins anew. -/
theorem protects_escaped_iff (escapes : escape = some c) (place : Nat) :
    Protects escape (c :: next :: rest) (place + 2) ↔ Protects escape rest place := by
  have spared : ¬ Protects escape (c :: next :: rest) 1 :=
    fun protects => protects.2 (protects_zero_iff.mpr escapes)
  induction place with
  | zero => exact (and_iff_left spared).trans (escapes_cons_iff.trans escapes_cons_iff)
  | succ place inductionHypothesis =>
    rw [Protects, escapes_cons_iff, escapes_cons_iff, Protects]
    exact and_congr_right fun _ => not_congr inductionHypothesis

/-- An end pattern counts at the first character unless that is the escape character. -/
theorem endsAt_zero_iff :
    EndsAt escape final (c :: rest) 0 ↔ escape ≠ some c ∧ final <+: c :: rest := by
  constructor
  · intro ends
    exact ⟨fun escapes => ends.free (protects_zero_iff.mpr escapes), ends.begins⟩
  · rintro ⟨plain, begins⟩
    exact ⟨Nat.succ_pos _, fun protects => plain (protects_zero_iff.mp protects),
      fun _ impossible => absurd impossible (by simp), begins⟩

/-- Behind a character that escapes nothing, the end pattern counts as in the rest. Such a character
protects nothing, and so it changes nothing about which characters behind it are protected. -/
theorem endsAt_unescaped_iff (plain : escape ≠ some c) (place : Nat) :
    EndsAt escape final (c :: rest) (place + 1) ↔ EndsAt escape final rest place := by
  have before : (∀ before, place + 1 = before + 1 → ¬ Protects escape (c :: rest) before) ↔
      ∀ before, place = before + 1 → ¬ Protects escape rest before := by
    constructor
    · rintro unprotected before rfl
      rw [← protects_unescaped_iff plain]
      exact unprotected _ rfl
    · intro unprotected before same
      obtain rfl : place = before := Nat.succ.inj same
      cases place with
      | zero => rwa [protects_zero_iff]
      | succ place =>
        rw [protects_unescaped_iff plain]
        exact unprotected place rfl
  constructor
  · rintro ⟨inside, free, unprotected, begins⟩
    exact ⟨Nat.lt_of_succ_lt_succ inside, (protects_unescaped_iff plain place).not.mp free,
      before.mp unprotected, begins⟩
  · rintro ⟨inside, free, unprotected, begins⟩
    exact ⟨Nat.succ_lt_succ inside, (protects_unescaped_iff plain place).not.mpr free,
      before.mpr unprotected, begins⟩

/-- The end pattern counts neither at a character that escapes another nor at that other one,
and behind them as in the rest. -/
theorem endsAt_escaped_iff (escapes : escape = some c) (place : Nat) :
    EndsAt escape final (c :: next :: rest) place ↔
      ∃ later, place = later + 2 ∧ EndsAt escape final rest later := by
  have here : Protects escape (c :: next :: rest) 0 := protects_zero_iff.mpr escapes
  have spared : ¬ Protects escape (c :: next :: rest) 1 := fun protects => protects.2 here
  constructor
  · rintro ⟨inside, free, unprotected, begins⟩
    match place with
    | 0 => exact absurd here free
    | 1 => exact absurd here (unprotected 0 rfl)
    | later + 2 =>
      refine ⟨later, rfl, ?_, (protects_escaped_iff escapes later).not.mp free, ?_, begins⟩
      · simp only [List.length_cons] at inside
        omega
      · rintro before rfl
        exact (protects_escaped_iff escapes before).not.mp (unprotected _ rfl)
  · rintro ⟨later, rfl, inside, free, unprotected, begins⟩
    refine ⟨?_, (protects_escaped_iff escapes later).not.mpr free, ?_, begins⟩
    · simp only [List.length_cons]
      omega
    · intro before same
      obtain rfl : later + 1 = before := Nat.succ.inj same
      cases later with
      | zero => exact spared
      | succ later => exact (protects_escaped_iff escapes later).not.mpr (unprotected later rfl)

end

/-! ## The end pattern -/

/-- Characters that are passed over before a text, and among which the end pattern does not
count, are added to those that reach behind the end pattern. -/
theorem EndsBehind.passed {escape : Option Char} {final rest more : List Char}
    {count passed : Nat} (behind : EndsBehind escape final rest count)
    (longer : more.length = rest.length + passed)
    (shifted : ∀ place, EndsAt escape final more place ↔
      ∃ later, place = later + passed ∧ EndsAt escape final rest later) :
    EndsBehind escape final more (passed + count) := by
  rcases behind with ⟨place, ends, rfl⟩ | ⟨missing, rfl⟩
  · refine Or.inl ⟨place + passed, ⟨(shifted _).mpr ⟨place, rfl, ends.ends⟩, ?_⟩, by omega⟩
    intro earlier before endsEarlier
    obtain ⟨later, rfl, endsLater⟩ := (shifted earlier).mp endsEarlier
    exact ends.first later (by omega) endsLater
  · refine Or.inr ⟨fun place ends => ?_, by omega⟩
    obtain ⟨later, _, endsLater⟩ := (shifted place).mp ends
    exact missing later endsLater

/-- The search for the end pattern stops behind the first place where it counts, and takes the
whole text when there is none.

Proof: the induction follows the search. What is passed over at once, a character or an escape
character with the one behind it, has no place where the pattern counts, and behind it the
places are those of the rest. -/
theorem throughPattern_endsBehind (escape : Option Char) (final text : List Char) :
    EndsBehind escape final text (throughPattern escape final text) := by
  match text with
  | [] => exact Or.inr ⟨fun place ends => absurd ends.inside (Nat.not_lt_zero place), rfl⟩
  | c :: rest =>
    by_cases escapes : escape = some c
    · match rest with
      | [] =>
        refine Or.inr ⟨fun place ends => ?_, by simp [throughPattern, escapes]⟩
        obtain rfl : place = 0 := by simpa using ends.inside
        exact ends.free (protects_zero_iff.mpr escapes)
      | next :: rest =>
        rw [throughPattern_escaped final escapes]
        apply (throughPattern_endsBehind escape final rest).passed
        · rfl
        · exact endsAt_escaped_iff escapes
    · rw [throughPattern_unescaped final escapes]
      split
      · rename_i here
        have begins := List.isPrefixOf_iff_prefix.mp here
        exact Or.inl ⟨0, ⟨endsAt_zero_iff.mpr ⟨escapes, begins⟩, by simp⟩, (Nat.zero_add _).symm⟩
      · rename_i missing
        rw [List.isPrefixOf_iff_prefix] at missing
        apply (throughPattern_endsBehind escape final rest).passed
        · rfl
        · intro place
          cases place with
          | zero => simp [endsAt_zero_iff, missing]
          | succ place => simp [endsAt_unescaped_iff escapes]
termination_by text.length

/-! ## Regions in bytes -/

/-- The number of bytes of the region at the start of the text. -/
def regionBytes (rule : Rule) (text : List Char) : Nat :=
  Text.byteLength (text.take (rule.regionLength text))

/-- The place, in bytes, where a region at the start of the text has to end. Without an end it
is that of the pattern. With an end pattern it is behind the first place inside where the
pattern counts, and the end of the text when there is none. A computed length is brought
between the length of the pattern and that of the text, and the least place between two
characters that is not before it ends the region. -/
def EndsRegion (rule : Rule) (text : List Char) (bytes : Nat) : Prop :=
  let pattern := rule.start.toList
  match rule.ending with
  | .none => bytes = Text.byteLength pattern
  | .pattern final =>
    let inside := text.drop pattern.length
    (∃ place, EndsFirst rule.escape final.toList inside place ∧
        bytes = Text.byteLength pattern + Text.byteLength (inside.take place) +
          Text.byteLength final.toList) ∨
      (∀ place, ¬ EndsAt rule.escape final.toList inside place) ∧ bytes = Text.byteLength text
  | .measured length =>
    IsLeast { boundary | Text.Boundary text boundary ∧
      max (Text.byteLength pattern) (min (length text) (Text.byteLength text)) ≤ boundary } bytes

/-- The region of an end pattern, as text: the start pattern, what is inside, and the end
pattern. -/
theorem take_region {pattern inside final : List Char} {place : Nat}
    (begins : final <+: inside.drop place) :
    (pattern ++ inside).take (pattern.length + (place + final.length)) =
      pattern ++ inside.take place ++ final := by
  obtain ⟨behind, ends⟩ := begins
  rw [List.take_length_add_append, List.take_add, ← ends, List.take_left, List.append_assoc]

/-- A region ends where it has to. The cases are the three kinds of endings: none, an end pattern,
and a computed length. -/
theorem endsRegion_regionBytes (rule : Rule) {text : List Char}
    (begins : rule.start.toList <+: text) : rule.EndsRegion text (rule.regionBytes text) := by
  obtain ⟨inside, rfl⟩ := begins
  cases ending : rule.ending with
  | none => simp only [EndsRegion, regionBytes, regionLength, ending, List.take_left]
  | pattern final =>
    simp only [EndsRegion, regionBytes, regionLength, ending, List.drop_left]
    rcases throughPattern_endsBehind rule.escape final.toList inside with
      ⟨place, ends, behind⟩ | ⟨missing, whole⟩
    · refine Or.inl ⟨place, ends, ?_⟩
      rw [behind, take_region ends.ends.begins, Text.byteLength_append, Text.byteLength_append]
    · refine Or.inr ⟨missing, ?_⟩
      rw [whole, ← List.length_append, List.take_length]
  | measured length =>
    simp only [EndsRegion, regionBytes, regionLength, ending]
    apply Text.covering_isLeast
    rw [Text.byteLength_append]
    omega

/-- A region takes at least the bytes of its pattern. This is seen from where the region has to end,
for each of the three kinds of endings. -/
theorem start_le_regionBytes (rule : Rule) {text : List Char}
    (begins : rule.start.toList <+: text) :
    Text.byteLength rule.start.toList ≤ rule.regionBytes text := by
  have ends := rule.endsRegion_regionBytes begins
  obtain ⟨inside, rfl⟩ := begins
  simp only [EndsRegion] at ends
  split at ends
  · exact Nat.le_of_eq ends.symm
  · rcases ends with ⟨place, _, same⟩ | ⟨_, same⟩
    · rw [same, Nat.add_assoc]
      exact Nat.le_add_right _ _
    · rw [same, Text.byteLength_append]
      exact Nat.le_add_right _ _
  · exact Nat.le_trans (Nat.le_max_left _ _) ends.1.2

/-! ## Regions by byte offsets -/

namespace InPlace

/-- Search for the end pattern from the byte offset `place` on, where `ahead` is left of the
text: the offset behind it, or behind the text. -/
def throughPattern (escape : Option Char) (final text : List Char) (place : Nat)
    (ahead : List Char) : Except Escape.InPlace.Halt Nat :=
  match ahead with
  | [] => return Text.byteLength text
  | c :: ahead =>
    if escape = some c then
      throughPattern escape final text (place + c.utf8Size + Text.byteLength (ahead.take 1))
        (ahead.drop 1)
    else do
      let (_, behind) ← Escape.InPlace.cut place text
      if final.isPrefixOf behind then return place + Text.byteLength final
      else throughPattern escape final text (place + c.utf8Size) ahead
termination_by ahead.length
decreasing_by all_goals simp only [List.length_drop, List.length_cons]; omega

/-- Move an offset up until the text can be cut there, in so many rounds. -/
def settle (text : List Char) : Nat → Nat → Except Escape.InPlace.Halt Nat
  | 0, _ => .error .outOfRounds
  | rounds + 1, offset =>
    if (Text.cut? offset text).isSome then return offset else settle text rounds (offset + 1)

/-- The number of bytes of the region at the start of the text, by byte offsets. -/
def regionLength (rounds : Nat) (rule : Rule) (text : List Char) :
    Except Escape.InPlace.Halt Nat :=
  let least := Text.byteLength rule.start.toList
  match rule.ending with
  | .none => return least
  | .pattern final => do
    let (_, inside) ← Escape.InPlace.cut least text
    throughPattern rule.escape final.toList text least inside
  | .measured length => settle text rounds (max least (min (length text) (Text.byteLength text)))

/-- What is before the offset ends with a character, so the text is cut there and the same end
pattern is found.

Proof: the induction follows the search, with what it has passed over as the text before the
offset. -/
theorem throughPattern_byteLength (escape : Option Char) (final before ahead : List Char) :
    throughPattern escape final (before ++ ahead) (Text.byteLength before) ahead =
      .ok (Text.byteLength
        (before ++ ahead.take (Rule.throughPattern escape final ahead))) := by
  match ahead with
  | [] => simp [throughPattern]
  | c :: ahead =>
    have one : Text.byteLength before + c.utf8Size = Text.byteLength (before ++ [c]) := by
      simp [Text.byteLength_append, Text.byteLength]
    by_cases escapes : escape = some c
    · rw [throughPattern, if_pos escapes, one]
      match ahead with
      | [] => simp [throughPattern, Rule.throughPattern, escapes, Text.byteLength]
      | next :: ahead =>
        have later := throughPattern_byteLength escape final (before ++ [c] ++ [next]) ahead
        rw [List.take_succ_cons, List.take_zero, List.drop_one, List.tail_cons,
          ← Text.byteLength_append, throughPattern_escaped final escapes, Nat.add_comm 2]
        simpa using later
    · rw [throughPattern, if_neg escapes, Escape.InPlace.cut_byteLength,
        throughPattern_unescaped final escapes]
      simp only [Escape.InPlace.ok_bind]
      split
      · rename_i stands
        obtain ⟨others, divided⟩ := List.isPrefixOf_iff_prefix.mp stands
        rw [← divided, List.take_left, Text.byteLength_append]
        rfl
      · have later := throughPattern_byteLength escape final (before ++ [c]) ahead
        rw [one, Nat.add_comm 1]
        simpa using later
termination_by ahead.length

/-- An offset is moved up to the least place that is not before it. By induction over the rounds:
every offset in between is no boundary and is passed. -/
theorem settle_isLeast {text : List Char} {rounds offset boundary : Nat}
    (least : IsLeast { boundary | Text.Boundary text boundary ∧ offset ≤ boundary } boundary)
    (near : boundary < offset + rounds) : settle text rounds offset = .ok boundary := by
  obtain ⟨⟨reached, notBefore⟩, first⟩ := least
  induction rounds generalizing offset with
  | zero => exact absurd notBefore (Nat.not_le.mpr near)
  | succ rounds inductionHypothesis =>
    rw [settle]
    by_cases here : Text.Boundary text offset
    · rw [if_pos (Text.isSome_cut?_iff.mpr here), Nat.le_antisymm notBefore (first ⟨here, le_rfl⟩)]
      rfl
    · rw [if_neg (Text.isSome_cut?_iff.not.mpr here)]
      have passed : offset ≠ boundary := fun same => here (same ▸ reached)
      apply inductionHypothesis
      · omega
      · rintro other ⟨otherReached, behind⟩
        exact first ⟨otherReached, Nat.le_of_succ_le behind⟩
      · omega

/-- By byte offsets, the region has the same number of bytes: no cut falls into a character,
and four rounds are enough for a computed length. -/
theorem regionLength_eq_ok (rule : Rule) {text : List Char} (begins : rule.start.toList <+: text)
    {rounds : Nat} (enough : 4 ≤ rounds) :
    regionLength rounds rule text = .ok (rule.regionBytes text) := by
  have ends := rule.endsRegion_regionBytes begins
  obtain ⟨inside, rfl⟩ := begins
  cases ending : rule.ending with
  | none => simp [regionLength, regionBytes, Rule.regionLength, ending]
  | pattern final =>
    have searched := throughPattern_byteLength rule.escape final.toList rule.start.toList inside
    simp only [regionLength, ending, Escape.InPlace.cut_byteLength, Escape.InPlace.ok_bind,
      searched, regionBytes, Rule.regionLength, List.drop_left, List.take_length_add_append]
  | measured length =>
    simp only [EndsRegion, ending] at ends
    simp only [regionLength, ending]
    refine settle_isLeast ends ?_
    have near := Text.byteLength_covering_lt (max (Text.byteLength rule.start.toList)
      (min (length (rule.start.toList ++ inside)) (Text.byteLength (rule.start.toList ++ inside))))
      (rule.start.toList ++ inside)
    simp only [regionBytes, Rule.regionLength, ending]
    omega

end InPlace

/-- A region of a text that begins with the rule's pattern ends between two characters, not
before the pattern does and not behind the text, and takes at least one byte, whatever length
is computed. Where it ends is determined by the kind of ending: behind the pattern, behind the
first end pattern that takes no part in escaping, or at the first place between two characters
that is not before the computed length. Found by byte offsets, it ends there too. -/
theorem regionBytes_exact (rule : Rule) {text : List Char}
    (begins : rule.start.toList <+: text) :
    let bytes := rule.regionBytes text
    (Text.Boundary text bytes ∧ 0 < bytes ∧ Text.byteLength rule.start.toList ≤ bytes ∧
        bytes ≤ Text.byteLength text) ∧
      rule.EndsRegion text bytes ∧
      ∀ rounds, 4 ≤ rounds → InPlace.regionLength rounds rule text = .ok bytes := by
  intro bytes
  have boundary := Text.boundary_take (rule.regionLength text) text
  have notBefore := rule.start_le_regionBytes begins
  have positive : 0 < Text.byteLength rule.start.toList :=
    Nat.lt_of_lt_of_le (List.length_pos_iff.mpr rule.startNonempty) (Text.length_le_byteLength _)
  refine ⟨⟨boundary, Nat.lt_of_lt_of_le positive notBefore, notBefore, boundary.le⟩, ?_, ?_⟩
  · exact rule.endsRegion_regionBytes begins
  · exact fun rounds enough => InPlace.regionLength_eq_ok rule begins enough

/-- Quoted text in which a backslash escapes. -/
def quoting : Rule where
  start := "\""
  ending := .pattern "\""
  escape := some '\\'
  startNonempty := by decide

/-- The text `"é\""x`, which begins with a region. -/
def quotedQuote : List Char := ['"', 'é', '\\', '"', '"', 'x']

/-- The quote behind the backslash is protected, and the next one ends the region after six
bytes. -/
theorem quotedQuote_ends :
    quoting.start.toList <+: quotedQuote ∧ quoting.regionBytes quotedQuote = 6 ∧
      (Text.Boundary quotedQuote (quoting.regionBytes quotedQuote) ∧
        0 < quoting.regionBytes quotedQuote ∧
        Text.byteLength quoting.start.toList ≤ quoting.regionBytes quotedQuote ∧
        quoting.regionBytes quotedQuote ≤ Text.byteLength quotedQuote) ∧
      quoting.EndsRegion quotedQuote (quoting.regionBytes quotedQuote) ∧
      ∀ rounds, 4 ≤ rounds →
        InPlace.regionLength rounds quoting quotedQuote = .ok (quoting.regionBytes quotedQuote) :=
  have begins : quoting.start.toList <+: quotedQuote := by decide
  ⟨begins, by decide, quoting.regionBytes_exact begins⟩

end Rule

end Parlance
