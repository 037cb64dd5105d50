import Mathlib.Data.List.Basic
import Mathlib.Data.List.GetD
import Mathlib.Data.List.TakeWhile
import Parlance.Diagnostic.LineIndex
import Parlance.Proofs.Escape.InPlace

/-!
# Offsets and lines

The lines of a text are what stands between its newlines. A line is found in the text by what is
before it, which is nothing or ends with a newline, and by what is behind it, which is nothing or
begins with one. The number of the line is the number of newlines before it.

The index of a text holds the offsets at which lines begin, in increasing order, so the line of an
offset is the last one that does not begin behind it. From an offset to its line and back nothing is
lost, and the lines are the whole text but for the newlines between them.
-/

namespace Parlance

/-! ## Newlines among bytes -/

namespace Text

/-- A newline is a byte of its own, and no other character has this byte in it. Characters below 128
are written as themselves, and the bytes of all others are 128 at least. -/
theorem count_newline_utf8EncodeChar (c : Char) :
    (String.utf8EncodeChar c).count 10 = if c = '\n' then 1 else 0 := by
  by_cases newline : c = '\n'
  · subst newline
    decide
  · have other : c.val.toNat ≠ 10 := by
      intro same
      apply newline
      apply Char.ext
      apply UInt32.toNat_inj.mp
      exact same
    have large {code : Nat} (lower : 128 ≤ code) (upper : code < 256) :
        (10 : UInt8) ≠ UInt8.ofNat code := by
      intro same
      have value := congrArg UInt8.toNat same
      rw [UInt8.toNat_ofNat_of_lt' upper] at value
      simp at value
      omega
    rw [if_neg newline, List.count_eq_zero]
    unfold String.utf8EncodeChar
    dsimp only
    split_ifs with one two three
    · intro member
      have value := congrArg UInt8.toNat (List.mem_singleton.mp member)
      rw [UInt8.toNat_ofNat_of_lt' (Nat.lt_of_le_of_lt one (by decide))] at value
      exact other value.symm
    all_goals
      simp only [List.mem_cons, List.not_mem_nil, or_false, not_or]
    · exact ⟨large (by omega) (by omega), large (by omega) (by omega)⟩
    · exact ⟨large (by omega) (by omega), large (by omega) (by omega), large (by omega) (by omega)⟩
    · exact ⟨large (by omega) (by omega), large (by omega) (by omega), large (by omega) (by omega),
        large (by omega) (by omega)⟩

/-- Newlines can be counted among the characters or among the bytes. -/
theorem count_newline_bytes (text : List Char) : (bytes text).count 10 = text.count '\n' := by
  induction text with
  | nil => rfl
  | cons c rest inductionHypothesis =>
    rw [bytes_cons, List.count_append, inductionHypothesis, count_newline_utf8EncodeChar,
      List.count_cons, Nat.add_comm]
    simp only [beq_iff_eq]

/-- The characters of a text take just its bytes, whatever follows. -/
theorem covering_byteLength (text behind : List Char) :
    covering (byteLength text) (text ++ behind) = text.length := by
  induction text with
  | nil => cases behind <;> simp [byteLength, covering]
  | cons c rest inductionHypothesis =>
    have positive : 0 < c.utf8Size := c.utf8Size_pos
    have further : c.utf8Size + byteLength rest - c.utf8Size = byteLength rest := by omega
    rw [List.cons_append, covering, byteLength, if_neg (by omega), further, inductionHypothesis,
      List.length_cons, Nat.add_comm]

end Text

/-! ## Lines in a text -/

/-- The line of the given number is `content`, between what is before and behind it. -/
structure LineAt (text : List Char) (number : Nat) (before content behind : List Char) : Prop where
  whole : text = before ++ content ++ behind
  counted : before.count '\n' = number
  inLine : '\n' ∉ content
  begins : before = [] ∨ ∃ earlier, before = earlier ++ ['\n']
  ends : behind = [] ∨ ∃ later, behind = '\n' :: later

/-- Lines put together with newlines, around one of them. Each line in front of it has a newline
behind itself, and each line behind it has one in front. -/
theorem intercalate_around (earlier : List (List Char)) (content : List Char)
    (later : List (List Char)) :
    ['\n'].intercalate (earlier ++ content :: later) =
      earlier.flatMap (· ++ ['\n']) ++ content ++ later.flatMap ('\n' :: ·) := by
  induction earlier with
  | nil =>
    induction later generalizing content with
    | nil => simp
    | cons next later inductionHypothesis =>
      have others := inductionHypothesis next
      simp only [List.nil_append, List.flatMap_nil] at others ⊢
      rw [List.intercalate_cons_cons, others]
      simp
  | cons line earlier inductionHypothesis =>
    obtain ⟨next, others, split⟩ := List.exists_cons_of_ne_nil
      (List.append_ne_nil_of_right_ne_nil earlier (List.cons_ne_nil content later))
    rw [split] at inductionHypothesis
    rw [List.cons_append, split, List.intercalate_cons_cons, inductionHypothesis]
    simp

/-- Each of the lines that a text is put together from is one of its lines. As many newlines come
before it as there are lines in front of it, since none of these has a newline in it. -/
theorem lineAt_of_lines {earlier later : List (List Char)} {content : List Char}
    (inLines : ∀ line ∈ earlier ++ content :: later, '\n' ∉ line) :
    LineAt (['\n'].intercalate (earlier ++ content :: later)) earlier.length
      (earlier.flatMap (· ++ ['\n'])) content (later.flatMap ('\n' :: ·)) := by
  refine ⟨intercalate_around earlier content later, ?_, inLines content (by simp), ?_, ?_⟩
  · have inEarlier : ∀ line ∈ earlier, '\n' ∉ line := fun line member =>
      inLines line (List.mem_append_left _ member)
    clear inLines
    induction earlier with
    | nil => rfl
    | cons line earlier inductionHypothesis =>
      have others := inductionHypothesis fun line member =>
        inEarlier line (List.mem_cons_of_mem _ member)
      rw [List.flatMap_cons, List.count_append, List.count_append, others, List.length_cons,
        List.count_eq_zero.mpr (inEarlier line List.mem_cons_self)]
      simp [Nat.add_comm]
  · rcases List.eq_nil_or_concat earlier with rfl | ⟨lines, line, rfl⟩
    · exact .inl rfl
    · exact .inr ⟨lines.flatMap (· ++ ['\n']) ++ line, by simp⟩
  · cases later with
    | nil => exact .inl rfl
    | cons line later => exact .inr ⟨_, rfl⟩

/-- Every text is put together from lines. By induction over the characters: a newline begins
another line, and anything else goes to the front of the first one. -/
theorem exists_lines (text : List Char) :
    ∃ first others, (∀ line ∈ first :: others, '\n' ∉ line) ∧
      ['\n'].intercalate (first :: others) = text := by
  induction text with
  | nil => exact ⟨[], [], by simp, rfl⟩
  | cons c rest inductionHypothesis =>
    obtain ⟨first, others, inLines, whole⟩ := inductionHypothesis
    by_cases newline : c = '\n'
    · refine ⟨[], first :: others, ?_, ?_⟩
      · exact List.forall_mem_cons.mpr ⟨List.not_mem_nil, inLines⟩
      · rw [List.intercalate_cons_cons, whole, newline]
        rfl
    · obtain ⟨inFirst, inOthers⟩ := List.forall_mem_cons.mp inLines
      refine ⟨c :: first, others, List.forall_mem_cons.mpr ⟨?_, inOthers⟩, ?_⟩
      · intro member
        rcases List.mem_cons.mp member with same | inside
        · exact newline same.symm
        · exact inFirst inside
      · have longer := intercalate_around [] (c :: first) others
        have shorter := intercalate_around [] first others
        rw [List.nil_append] at longer shorter
        rw [longer, ← whole, shorter]
        rfl

/-- Every offset that is not behind the end is in one of the lines, or at the end of one. The lines
are gone through in order, and each that ends too early takes its bytes and its newline off the
offset. -/
theorem exists_lineAt (text : List Char) {offset : Nat} (inside : offset ≤ Text.byteLength text) :
    ∃ number before content behind, LineAt text number before content behind ∧
      Text.byteLength before ≤ offset ∧
      offset ≤ Text.byteLength before + Text.byteLength content := by
  have divide (first : List Char) (others : List (List Char)) {offset : Nat}
      (inside : offset ≤ Text.byteLength (['\n'].intercalate (first :: others))) :
      ∃ earlier content later, first :: others = earlier ++ content :: later ∧
        Text.byteLength (earlier.flatMap (· ++ ['\n'])) ≤ offset ∧
        offset ≤ Text.byteLength (earlier.flatMap (· ++ ['\n'])) + Text.byteLength content := by
    induction others generalizing first offset with
    | nil =>
      rw [List.intercalate_singleton] at inside
      exact ⟨[], first, [], rfl, Nat.zero_le _, by simpa [Text.byteLength] using inside⟩
    | cons next others inductionHypothesis =>
      by_cases here : offset ≤ Text.byteLength first
      · exact ⟨[], first, next :: others, rfl, Nat.zero_le _,
          by simpa [Text.byteLength] using here⟩
      · have newline : Text.byteLength ['\n'] = 1 := rfl
        rw [List.intercalate_cons_cons, Text.byteLength_append, Text.byteLength_append,
          newline] at inside
        obtain ⟨earlier, content, later, same, lower, upper⟩ :=
          @inductionHypothesis next (offset - (Text.byteLength first + 1)) (by omega)
        refine ⟨first :: earlier, content, later, by rw [same]; rfl, ?_, ?_⟩
        all_goals
          rw [List.flatMap_cons, Text.byteLength_append, Text.byteLength_append, newline]
          omega
  obtain ⟨first, others, inLines, rfl⟩ := exists_lines text
  obtain ⟨earlier, content, later, same, lower, upper⟩ := divide first others inside
  rw [same] at inLines ⊢
  exact ⟨_, _, _, _, lineAt_of_lines inLines, lower, upper⟩

namespace LineIndex

/-! ## The offsets at which lines begin -/

/-- The lines of a text behind another begin further on, by the bytes of what is in front of it. -/
theorem startsFrom_append (offset : Nat) (left right : List Char) :
    startsFrom offset (left ++ right) =
      startsFrom offset left ++ startsFrom (offset + Text.byteLength left) right := by
  induction left generalizing offset with
  | nil => rfl
  | cons c rest inductionHypothesis =>
    simp only [List.cons_append, startsFrom, inductionHypothesis, Text.byteLength, Nat.add_assoc]
    split <;> rfl

/-- Without a newline no other line begins. -/
theorem startsFrom_of_notMem (offset : Nat) {text : List Char} (inLine : '\n' ∉ text) :
    startsFrom offset text = [] := by
  induction text generalizing offset with
  | nil => rfl
  | cons c rest inductionHypothesis =>
    have other := List.ne_of_not_mem_cons inLine
    rw [startsFrom, if_neg other.symm, inductionHypothesis _ (List.not_mem_of_not_mem_cons inLine)]

/-- Every newline begins a line, and nothing else does. -/
theorem length_startsFrom (offset : Nat) (text : List Char) :
    (startsFrom offset text).length = text.count '\n' := by
  induction text generalizing offset with
  | nil => rfl
  | cons c rest inductionHypothesis =>
    rw [startsFrom]
    by_cases newline : c = '\n'
    · rw [if_pos newline, List.length_cons, inductionHypothesis, newline, List.count_cons_self]
    · rw [if_neg newline, inductionHypothesis, List.count_cons_of_ne newline]

/-- A line begins behind a newline, so behind the start of the text and not behind its end. By
induction over the text, as every character has one byte at least. -/
theorem bounds_of_mem_startsFrom {offset start : Nat} {text : List Char}
    (member : start ∈ startsFrom offset text) :
    offset < start ∧ start ≤ offset + Text.byteLength text := by
  induction text generalizing offset with
  | nil => exact absurd member List.not_mem_nil
  | cons c rest inductionHypothesis =>
    have positive : 0 < c.utf8Size := c.utf8Size_pos
    have further (later : start ∈ startsFrom (offset + c.utf8Size) rest) :
        offset < start ∧ start ≤ offset + Text.byteLength (c :: rest) := by
      obtain ⟨lower, upper⟩ := inductionHypothesis later
      rw [Text.byteLength]
      omega
    rw [startsFrom] at member
    split at member
    · rcases List.mem_cons.mp member with same | later
      · rw [Text.byteLength]
        omega
      · exact further later
    · exact further member

/-- Lines begin one behind the other, so the table can be searched by halves. Each newline is behind
the ones before it, by the bytes of the characters in between. -/
theorem startsFrom_increasing (offset : Nat) (text : List Char) :
    (startsFrom offset text).Pairwise (· < ·) := by
  induction text generalizing offset with
  | nil => exact List.Pairwise.nil
  | cons c rest inductionHypothesis =>
    rw [startsFrom]
    split
    · apply List.Pairwise.cons
      · intro start member
        exact (bounds_of_mem_startsFrom member).1
      · exact inductionHypothesis _
    · exact inductionHypothesis _

/-- The lines of a text begin one behind the other. -/
theorem starts_increasing (text : List Char) : (ofText text).starts.Pairwise (· < ·) := by
  apply List.Pairwise.cons
  · intro start member
    exact (bounds_of_mem_startsFrom member).1
  · exact startsFrom_increasing 0 text

/-- The starts up to an offset, where those behind it come later. -/
theorem takeWhile_begun {starts earlier later : List Nat} {offset : Nat}
    (split : starts = earlier ++ later) (begun : ∀ start ∈ earlier, start ≤ offset)
    (unreached : ∀ start ∈ later, offset < start) : starts.takeWhile (· ≤ offset) = earlier := by
  rw [split, List.takeWhile_append_of_pos fun start member => decide_eq_true (begun start member)]
  cases later with
  | nil => simp
  | cons start others =>
    have above := unreached start List.mem_cons_self
    rw [List.takeWhile_cons_of_neg (by simpa using above), List.append_nil]

/-- What a search for an offset in an increasing table leads to: the place of the offset if it is
there, and otherwise the place before the one where it would have to be put in. -/
inductive Searched (starts : List Nat) (offset : Nat) : Nat → Prop where
  | found {place : Nat} (here : starts[place]? = some offset) : Searched starts offset place
  | missing {place : Nat} (inside : place ≤ starts.length)
      (below : ∀ start ∈ starts.take place, start < offset)
      (above : ∀ start ∈ starts.drop place, offset < start) : Searched starts offset (place - 1)

/-- A search among the starts leads to the line of an offset. Whether the search found the offset
among the starts or stopped before the place where it would stand, the starts up to there are just
those that are not behind the offset. -/
theorem lineAndColumn_of_searched {text : List Char} {offset line : Nat}
    (searched : Searched (ofText text).starts offset line) :
    ((ofText text).lineAndColumn offset).1 = line := by
  have increasing := starts_increasing text
  cases searched with
  | found here =>
    obtain ⟨inside, same⟩ := List.getElem?_eq_some_iff.mp here
    have split : (ofText text).starts = (ofText text).starts.take line ++
        offset :: (ofText text).starts.drop (line + 1) := by
      rw [← same, ← List.drop_eq_getElem_cons inside, List.take_append_drop]
    rw [split] at increasing
    obtain ⟨_, later, below⟩ := List.pairwise_append.mp increasing
    have begun : (ofText text).starts.takeWhile (· ≤ offset) =
        (ofText text).starts.take line ++ [offset] := by
      apply takeWhile_begun (split.trans (List.append_cons _ _ _))
      · intro start member
        rcases List.mem_append.mp member with passed | own
        · exact Nat.le_of_lt (below start passed offset List.mem_cons_self)
        · exact Nat.le_of_eq (List.mem_singleton.mp own)
      · exact (List.pairwise_cons.mp later).1
    rw [lineAndColumn, begun, List.length_append, List.length_take, List.length_singleton,
      Nat.add_sub_cancel, Nat.min_eq_left (Nat.le_of_lt inside)]
  | @missing place inside below above =>
    have begun : (ofText text).starts.takeWhile (· ≤ offset) = (ofText text).starts.take place := by
      apply takeWhile_begun (List.take_append_drop place _).symm
      · intro start member
        exact Nat.le_of_lt (below start member)
      · exact above
    rw [lineAndColumn, begun, List.length_take, Nat.min_eq_left inside]

/-- There is one line more than there are newlines. -/
theorem lineCount_ofText (text : List Char) : (ofText text).lineCount = text.count '\n' + 1 := by
  rw [lineCount, ofText, List.length_cons, length_startsFrom]

/-- Lines are numbered from zero on. -/
theorem lineRange?_isSome_iff (index : LineIndex) (line : Nat) :
    (index.lineRange? line).isSome ↔ line < index.lineCount := by
  rw [← Nat.not_le, lineCount, ← List.drop_eq_nil_iff, lineRange?]
  split <;> simp_all

/-! ## One line -/

variable {text before content behind : List Char} {number : Nat}

/-- As many lines begin before a line as its number says; the others begin behind it. A newline
stands in front of the line, unless it is the first one, and there is none in the line itself. -/
theorem starts_at (line : LineAt text number before content behind) :
    ∃ earlier, earlier.length = number ∧
      (ofText text).starts = earlier ++ Text.byteLength before ::
        startsFrom (Text.byteLength before + Text.byteLength content) behind := by
  have rest (offset : Nat) : startsFrom offset (content ++ behind) =
      startsFrom (offset + Text.byteLength content) behind := by
    rw [startsFrom_append, startsFrom_of_notMem offset line.inLine, List.nil_append]
  have counted := line.counted
  rw [line.whole, ofText, List.append_assoc, startsFrom_append, rest, Nat.zero_add]
  rcases line.begins with rfl | ⟨first, rfl⟩
  · exact ⟨[], counted, rfl⟩
  · refine ⟨0 :: startsFrom 0 first, ?_, ?_⟩
    · rw [List.length_cons, length_startsFrom, ← counted, List.count_append]
      rfl
    · rw [startsFrom_append, Nat.zero_add, Text.byteLength_append]
      simp [startsFrom, Text.byteLength]

/-- The range of a line goes from its start up to the newline behind it, or to the end. -/
theorem lineRange?_at (line : LineAt text number before content behind) :
    (ofText text).lineRange? number =
      some (Text.byteLength before, Text.byteLength before + Text.byteLength content) := by
  obtain ⟨earlier, length, starts⟩ := starts_at line
  rw [lineRange?, starts, List.drop_left' length]
  rcases line.ends with rfl | ⟨later, rfl⟩
  · rw [startsFrom, ofText, line.whole, List.append_nil, Text.byteLength_append]
  · rfl

/-- An offset between the start and the end of a line belongs to this line. The line begins at the
last of the starts that are not behind the offset, because the next line begins behind the end of
this one. -/
theorem lineAndColumn_at (line : LineAt text number before content behind) {offset : Nat}
    (lower : Text.byteLength before ≤ offset)
    (upper : offset ≤ Text.byteLength before + Text.byteLength content) :
    (ofText text).lineAndColumn offset = (number, offset - Text.byteLength before) := by
  obtain ⟨earlier, length, starts⟩ := starts_at line
  have increasing := starts_increasing text
  rw [starts] at increasing
  obtain ⟨_, _, below⟩ := List.pairwise_append.mp increasing
  have begun : (ofText text).starts.takeWhile (· ≤ offset) =
      earlier ++ [Text.byteLength before] := by
    apply takeWhile_begun (starts.trans (List.append_cons _ _ _))
    · intro start member
      rcases List.mem_append.mp member with passed | own
      · exact Nat.le_trans (Nat.le_of_lt (below start passed _ List.mem_cons_self)) lower
      · exact (List.mem_singleton.mp own).trans_le lower
    · intro start member
      exact Nat.lt_of_le_of_lt upper (bounds_of_mem_startsFrom member).1
  have start : (ofText text).starts.getD number 0 = Text.byteLength before := by
    rw [starts, List.getD_append_right _ _ _ _ (Nat.le_of_eq length), length, Nat.sub_self,
      List.getD_cons_zero]
  rw [lineAndColumn, begun, List.length_append, List.length_singleton, Nat.add_sub_cancel, length,
    start]

/-- An offset behind the end belongs to the last line. No line begins behind it, so all starts are
passed. -/
theorem lineAndColumn_behind {offset : Nat} (outside : Text.byteLength text < offset) :
    ((ofText text).lineAndColumn offset).1 + 1 = (ofText text).lineCount := by
  have begun : (ofText text).starts.takeWhile (· ≤ offset) = (ofText text).starts := by
    apply takeWhile_begun (List.append_nil _).symm
    · intro start member
      rcases List.mem_cons.mp member with rfl | later
      · exact Nat.zero_le _
      · have upper := (bounds_of_mem_startsFrom later).2
        omega
    · simp
  rw [lineAndColumn, begun, lineCount]
  rfl

/-- The slice of a line's range is the line. -/
theorem slice_at (line : LineAt text number before content behind) :
    slice text (Text.byteLength before) (Text.byteLength before + Text.byteLength content) =
      content := by
  rw [line.whole, slice, List.append_assoc, Text.covering_byteLength, List.drop_left,
    Nat.add_sub_cancel_left, Text.covering_byteLength, List.take_left]

/-- The bytes of a line are those of its range. Both ends of the range are ends of characters, so
cutting the characters and cutting the bytes come to the same. -/
theorem bytes_slice_at (line : LineAt text number before content behind) :
    Text.bytes (slice text (Text.byteLength before)
        (Text.byteLength before + Text.byteLength content)) =
      ((Text.bytes text).take (Text.byteLength before + Text.byteLength content)).drop
        (Text.byteLength before) := by
  have length : (Text.bytes before ++ Text.bytes content).length =
      Text.byteLength before + Text.byteLength content := by
    rw [List.length_append, Text.length_bytes, Text.length_bytes]
  rw [slice_at line, line.whole, Text.bytes_append, Text.bytes_append, List.take_left' length,
    List.drop_left' (Text.length_bytes before)]

/-- The newlines among the bytes before an offset in a line are those before the line. What the
offset cuts off of the line itself has no newline in it, so nothing but the lines before counts. -/
theorem count_newline_before (line : LineAt text number before content behind) {offset : Nat}
    (lower : Text.byteLength before ≤ offset)
    (upper : offset ≤ Text.byteLength before + Text.byteLength content) :
    ((Text.bytes text).take offset).count 10 = number := by
  have inside : 10 ∉ (Text.bytes content).take (offset - Text.byteLength before) := by
    intro member
    apply List.count_eq_zero.mp ((Text.count_newline_bytes content).trans
      (List.count_eq_zero.mpr line.inLine))
    exact List.mem_of_mem_take member
  rw [line.whole, Text.bytes_append, Text.bytes_append, List.take_append_of_le_length
    (by rw [List.length_append, Text.length_bytes, Text.length_bytes]; exact upper),
    List.take_append, Text.length_bytes,
    List.take_of_length_le (by rw [Text.length_bytes]; exact lower),
    List.count_append, List.count_eq_zero.mpr inside, Text.count_newline_bytes, line.counted]
  rfl

/-! ## All lines -/

/-- A text is put together from as many lines as its index has, each of them in its place. These are
the lines that lie between the newlines; there is one more of them than of newlines, and so many
lines the index has as well. -/
theorem exists_lines_at (text : List Char) :
    ∃ lines : List (List Char), ['\n'].intercalate lines = text ∧
      lines.length = (ofText text).lineCount ∧
      ∀ number content, lines[number]? = some content →
        ∃ before behind, LineAt text number before content behind := by
  obtain ⟨first, others, inLines, whole⟩ := exists_lines text
  refine ⟨first :: others, whole, ?_, ?_⟩
  · obtain ⟨earlier, last, split⟩ :=
      (List.eq_nil_or_concat (first :: others)).resolve_left (List.cons_ne_nil _ _)
    rw [List.concat_eq_append] at split
    have ending := lineAt_of_lines (split ▸ inLines)
    rw [← split, whole] at ending
    have counted : text.count '\n' = earlier.length := by
      rw [ending.whole, List.count_append, List.count_append, ending.counted,
        List.count_eq_zero.mpr ending.inLine]
      rfl
    rw [split, lineCount_ofText, counted, List.length_append, List.length_singleton]
  · intro number content found
    obtain ⟨inside, rfl⟩ := List.getElem?_eq_some_iff.mp found
    have split : first :: others = (first :: others).take number ++
        (first :: others)[number] :: (first :: others).drop (number + 1) := by
      rw [← List.drop_eq_getElem_cons inside, List.take_append_drop]
    have placed := lineAt_of_lines (split ▸ inLines)
    rw [← split, whole, List.length_take, Nat.min_eq_left (Nat.le_of_lt inside)] at placed
    exact ⟨_, _, placed⟩

/-- The index of a text maps offsets to lines and lines to offsets, and nothing is lost either way.
The line of an offset in the text is the number of newlines among the bytes before it; this line has
a range, in which the offset is as far from the start as its column says, and not behind the end. A
line has a range exactly when it is one of the lines counted; the slices of the ranges are the bytes
that stand there; and put together with newlines they are the text. An offset behind the end belongs
to the last line. The line of any offset is the one that a search in the table of starts leads
to. -/
theorem ofText_exact (text : List Char) :
    (∀ offset ≤ Text.byteLength text,
      ((ofText text).lineAndColumn offset).1 = ((Text.bytes text).take offset).count 10 ∧
      ∃ first last,
        (ofText text).lineRange? ((ofText text).lineAndColumn offset).1 = some (first, last) ∧
        first + ((ofText text).lineAndColumn offset).2 = offset ∧ offset ≤ last) ∧
    (∀ line, ((ofText text).lineRange? line).isSome ↔ line < (ofText text).lineCount) ∧
    (∀ line first last, (ofText text).lineRange? line = some (first, last) →
      Text.bytes (slice text first last) = ((Text.bytes text).take last).drop first) ∧
    ['\n'].intercalate (((List.range (ofText text).lineCount).filterMap
      (ofText text).lineRange?).map fun range => slice text range.1 range.2) = text ∧
    (∀ offset, Text.byteLength text < offset →
      ((ofText text).lineAndColumn offset).1 + 1 = (ofText text).lineCount) ∧
    ∀ offset line, Searched (ofText text).starts offset line →
      ((ofText text).lineAndColumn offset).1 = line := by
  obtain ⟨lines, whole, length, placed⟩ := exists_lines_at text
  refine ⟨?_, lineRange?_isSome_iff _, ?_, ?_, fun offset => lineAndColumn_behind,
    fun offset line => lineAndColumn_of_searched⟩
  · intro offset inside
    obtain ⟨number, before, content, behind, line, lower, upper⟩ := exists_lineAt text inside
    rw [lineAndColumn_at line lower upper]
    refine ⟨(count_newline_before line lower upper).symm, _, _, lineRange?_at line, ?_, upper⟩
    exact Nat.add_sub_of_le lower
  · intro number first last ranged
    have counted : number < (ofText text).lineCount := by
      apply (lineRange?_isSome_iff _ number).mp
      rw [ranged]
      rfl
    obtain ⟨before, behind, line⟩ := placed number _ (List.getElem?_eq_getElem (length ▸ counted))
    obtain ⟨rfl, rfl⟩ := Prod.mk.inj (Option.some.inj (ranged.symm.trans (lineRange?_at line)))
    exact bytes_slice_at line
  · have sliced : ∀ number ∈ List.range lines.length,
        ((ofText text).lineRange? number).map (fun range => slice text range.1 range.2) =
          some (lines.getD number []) := by
      intro number member
      have inside := List.getElem?_eq_getElem (List.mem_range.mp member)
      obtain ⟨before, behind, line⟩ := placed number _ inside
      rw [lineRange?_at line, Option.map_some, slice_at line, List.getD_eq_getElem?_getD, inside]
      rfl
    have all : (List.range lines.length).map (fun number => lines.getD number []) = lines := by
      apply List.ext_getElem
      · simp
      · intro number _ inside
        simp [inside]
    rw [← length, List.map_filterMap, List.filterMap_congr sliced, List.filterMap_eq_map', all,
      whole]

end LineIndex

end Parlance
