import Parlance.Proofs.Lexer.Tiling

/-!
# Lexing from the middle of a text

What the lexer finds at a place depends only on the text from there on, except inside a
run, which belongs together with the characters before it. So a text can be lexed again
from any place where a region ends: started at the position of that place, the lexer
finds the tokens that it found there in the whole text.

Positions are counted on from the start of the source. A source that starts somewhere in
a file has the tokens of the same text at the start of a file, moved along: every line and
every offset is further on, and on the first line every column is too.

Both hold whether tokens are passed on or replaced by definitions, which take the place of
the names that they stand for.
-/

namespace Parlance

/-- A text is divided at most once at a given number of bytes. Every character has a byte at least,
so neither part can be a proper beginning of the other. -/
theorem Text.append_inj_of_byteLength {left right first second : List Char}
    (divided : left ++ right = first ++ second) (bytes : byteLength left = byteLength first) :
    left = first ∧ right = second := by
  induction left generalizing first with
  | nil =>
    cases first with
    | nil => exact ⟨rfl, divided⟩
    | cons c rest =>
      have positive := c.utf8Size_pos
      simp only [byteLength] at bytes
      omega
  | cons c rest inductionHypothesis =>
    cases first with
    | nil =>
      have positive := c.utf8Size_pos
      simp only [byteLength] at bytes
      omega
    | cons d others =>
      obtain ⟨rfl, tails⟩ := List.cons.inj divided
      simp only [byteLength] at bytes
      obtain ⟨same, remaining⟩ := inductionHypothesis tails (by omega)
      exact ⟨by rw [same], remaining⟩

/-! ## Segments behind a region -/

namespace Segment

/-- What was collected becomes a run that is not empty, and no region. -/
theorem mem_flush {collected : List Char} {segment : Segment} (member : segment ∈ flush collected) :
    segment = .run collected.reverse ∧ collected ≠ [] := by
  cases collected with
  | nil => simp [flush] at member
  | cons c rest => simpa [flush] using member

end Segment

namespace Lexer

/-- No segment is empty. A run has the characters that were collected for it, and a region at least
those of its pattern. -/
theorem segmentsFrom_text_ne_nil (lexer : Lexer) (collected text : List Char) :
    ∀ segment ∈ lexer.segmentsFrom collected text, segment.text ≠ [] := by
  have flushed (collected : List Char) :
      ∀ segment ∈ Segment.flush collected, segment.text ≠ [] := by
    intro segment member
    obtain ⟨rfl, nonempty⟩ := Segment.mem_flush member
    simpa [Segment.text] using nonempty
  fun_induction lexer.segmentsFrom collected text with
  | case1 collected => exact flushed collected
  | case2 collected c rest _ inductionHypothesis => exact inductionHypothesis
  | case3 collected c rest rule _ length inductionHypothesis =>
    have positive : length ≠ 0 := Nat.pos_iff_ne_zero.mp (rule.regionLength_pos c rest)
    refine List.forall_mem_append.mpr ⟨flushed collected, ?_⟩
    refine List.forall_mem_cons.mpr ⟨?_, inductionHypothesis⟩
    simp [Segment.text, positive]

/-- The segments behind the first one are those of the text behind it.

Proof: the induction follows the lexer. An open run is closed at the end of the text, or
before a region, which stands first in the rest of the text too. -/
theorem segmentsFrom_eq_cons (lexer : Lexer) (collected text : List Char) {segment : Segment}
    {later : List Segment} (cut : lexer.segmentsFrom collected text = segment :: later) :
    ∃ rest, collected.reverse ++ text = segment.text ++ rest ∧ later = lexer.segments rest := by
  fun_induction lexer.segmentsFrom collected text with
  | case1 collected =>
    have first : segment ∈ Segment.flush collected := cut ▸ List.mem_cons_self
    obtain ⟨rfl, nonempty⟩ := Segment.mem_flush first
    refine ⟨[], by simp [Segment.text], ?_⟩
    simp only [Segment.flush, List.isEmpty_eq_false_iff.mpr nonempty] at cut
    simp [(List.cons.inj cut).2, segments, segmentsFrom, Segment.flush]
  | case2 collected c rest _ inductionHypothesis =>
    obtain ⟨behind, divided, same⟩ := inductionHypothesis cut
    exact ⟨behind, by simpa using divided, same⟩
  | case3 collected c rest rule found length _ =>
    cases collected with
    | nil =>
      obtain ⟨rfl, rfl⟩ := List.cons.inj cut
      exact ⟨(c :: rest).drop length, by simp [Segment.text], rfl⟩
    | cons d more =>
      obtain ⟨rfl, rfl⟩ := List.cons.inj cut
      refine ⟨c :: rest, rfl, ?_⟩
      rw [segments, segmentsFrom, found]
      rfl

/-- Between two segments the rest of the text is cut by itself. By induction over the segments in
front, each of which takes its own text off the start. -/
theorem segments_eq_append (lexer : Lexer) {text : List Char} {before after : List Segment}
    (cut : lexer.segments text = before ++ after) :
    ∃ rest, text = before.flatMap Segment.text ++ rest ∧ after = lexer.segments rest := by
  induction before generalizing text with
  | nil => exact ⟨text, rfl, cut.symm⟩
  | cons segment before inductionHypothesis =>
    obtain ⟨behind, divided, later⟩ := lexer.segmentsFrom_eq_cons [] text cut
    obtain ⟨rest, continued, same⟩ := inductionHypothesis later.symm
    refine ⟨rest, ?_, same⟩
    rw [List.reverse_nil, List.nil_append] at divided
    rw [divided, continued, List.flatMap_cons, List.append_assoc]

/-! ## Tokens behind a place -/

/-- The tokens of two lists of segments follow one another. By induction over the first list, which
moves the position on by its text. -/
theorem tokensOf_append (chain : Chain) (file : String) (position : Position)
    (first second : List Segment) :
    tokensOf chain file position (first ++ second) =
      tokensOf chain file position first ++
        tokensOf chain file (position.advance (first.flatMap Segment.text)) second := by
  induction first generalizing position with
  | nil => rfl
  | cons segment first inductionHypothesis =>
    simp only [List.cons_append, tokensOf, inductionHypothesis, List.flatMap_cons,
      Position.advance_append]
    split <;> rfl

/-- The tokens of segments stand inside their text: at its start or later, and before its
end, since no segment is empty. -/
theorem tokensOf_offset (chain : Chain) (file : String) (position : Position)
    {segments : List Segment} (nonempty : ∀ segment ∈ segments, segment.text ≠ []) :
    ∀ token ∈ tokensOf chain file position segments,
      position.offset ≤ token.position.offset ∧
        token.position.offset <
          position.offset + Text.byteLength (segments.flatMap Segment.text) := by
  induction segments generalizing position with
  | nil => simp [tokensOf]
  | cons segment segments inductionHypothesis =>
    obtain ⟨first, others⟩ := List.forall_mem_cons.mp nonempty
    have positive : 0 < Text.byteLength segment.text :=
      Nat.lt_of_lt_of_le (List.length_pos_iff.mpr first) (Text.length_le_byteLength _)
    have later : ∀ token ∈ tokensOf chain file (position.advance segment.text) segments,
        position.offset ≤ token.position.offset ∧ token.position.offset <
          position.offset + Text.byteLength ((segment :: segments).flatMap Segment.text) := by
      intro token member
      have inside := inductionHypothesis (position.advance segment.text) others token member
      rw [Position.advance_offset] at inside
      rw [List.flatMap_cons, Text.byteLength_append]
      omega
    rw [tokensOf]
    split
    · refine List.forall_mem_cons.mpr ⟨⟨Nat.le_refl _, ?_⟩, later⟩
      rw [List.flatMap_cons, Text.byteLength_append]
      show position.offset < _
      omega
    · exact later

/-- Lexing can resume behind the given number of bytes: there is the start of the text or
the end of a segment. Every place where a region ends is one of these, whether its rule is
filtered or not. -/
def Resumes (lexer : Lexer) (text : List Char) (place : Nat) : Prop :=
  ∃ before after, lexer.segments text = before ++ after ∧
    place = Text.byteLength (before.flatMap Segment.text)

/-- From a place where lexing can resume, the text is cut as it is in the whole. -/
theorem Resumes.segments_eq {lexer : Lexer} {read rest : List Char}
    (resumes : lexer.Resumes (read ++ rest) (Text.byteLength read)) :
    ∃ earlier, lexer.segments (read ++ rest) = earlier ++ lexer.segments rest ∧
      earlier.flatMap Segment.text = read := by
  obtain ⟨before, after, cut, place⟩ := resumes
  obtain ⟨behind, divided, same⟩ := lexer.segments_eq_append cut
  obtain ⟨isRead, isRest⟩ := Text.append_inj_of_byteLength divided place
  exact ⟨before, by rw [cut, same, isRest], isRead.symm⟩

/-- From a place where lexing can resume, the tokens are those of the whole that stand there
or later. -/
theorem Resumes.scan_eq {lexer : Lexer} {text : String} {read rest : List Char}
    (divided : text.toList = read ++ rest)
    (resumes : lexer.Resumes text.toList (Text.byteLength read)) (file : String)
    (start : Position) :
    lexer.scan { text := String.ofList rest, file, start := start.advance read } =
      (lexer.scan { text, file, start }).filter
        (start.offset + Text.byteLength read ≤ ·.position.offset) := by
  rw [divided] at resumes
  obtain ⟨earlier, cut, isRead⟩ := resumes.segments_eq
  have nonempty : ∀ segment ∈ earlier ++ lexer.segments rest, segment.text ≠ [] := by
    rw [← cut]
    exact lexer.segmentsFrom_text_ne_nil [] (read ++ rest)
  obtain ⟨earlierNonempty, restNonempty⟩ := List.forall_mem_append.mp nonempty
  have before := tokensOf_offset lexer.chain file start earlierNonempty
  have behind := tokensOf_offset lexer.chain file (start.advance read) restNonempty
  rw [isRead] at before
  rw [Position.advance_offset] at behind
  simp only [scan, divided, cut, tokensOf_append, isRead, String.toList_ofList,
    List.filter_append]
  rw [List.filter_eq_nil_iff.mpr, List.filter_eq_self.mpr, List.nil_append]
  · intro token member
    simpa using (behind token member).1
  · intro token member
    simpa using (before token member).2

end Lexer

/-! ## Moving along -/

namespace Position

/-- The position in a file of a place in a text that starts at `start`. Lines are counted
from one, so the first line of the text is the one where it starts; on this line the text
continues the columns before it. -/
def shift (position start : Position) : Position where
  line := position.line + start.line - 1
  column := if position.line = 1 then position.column + start.column else position.column
  offset := position.offset + start.offset

/-- The start of the text is where it starts. -/
theorem start_shift (start : Position) : Position.shift {} start = start := by
  simp [shift]

/-- Reading a character leads to the same place in the file as in the text. A newline ends
the first line, and from then on columns count the same. -/
theorem step_shift (position start : Position) (counted : 1 ≤ position.line) (c : Char) :
    (position.shift start).step c = (position.step c).shift start := by
  by_cases newline : c = '\n'
  · simp only [step, shift, newline, if_true, mk.injEq]
    refine ⟨by omega, ?_, by omega⟩
    rw [if_neg (by omega)]
  · simp only [step, shift, newline, if_false, mk.injEq, true_and]
    refine ⟨?_, by omega⟩
    split <;> omega

/-- Reading a text leads to the same place in the file as in the text. By induction over the text.
On the first line columns are moved too, and no later line is the first one. -/
theorem advance_shift (position start : Position) (counted : 1 ≤ position.line)
    (text : List Char) :
    (position.shift start).advance text = (position.advance text).shift start := by
  induction text generalizing position with
  | nil => rfl
  | cons c rest inductionHypothesis =>
    have stillCounted : 1 ≤ (position.step c).line := by
      by_cases newline : c = '\n' <;> simp [step, newline, counted]
    have moved := inductionHypothesis (position.step c) stillCounted
    rw [← step_shift position start counted] at moved
    exact moved

end Position

/-- The token of a text that starts at `start`, as it stands in the file. -/
def Token.shift (token : Token) (start : Position) : Token :=
  { token with position := token.position.shift start }

namespace Lexer

/-- Tokens are moved along with the position of their segments. By induction over the segments. -/
theorem tokensOf_shift (chain : Chain) (file : String) (position start : Position)
    (counted : 1 ≤ position.line) (segments : List Segment) :
    tokensOf chain file (position.shift start) segments =
      (tokensOf chain file position segments).map (·.shift start) := by
  induction segments generalizing position with
  | nil => rfl
  | cons segment segments inductionHypothesis =>
    have stillCounted : 1 ≤ (position.advance segment.text).line := by
      rw [Position.advance_eq]
      exact Nat.le_add_right_of_le counted
    simp only [tokensOf, Position.advance_shift position start counted,
      inductionHypothesis _ stillCounted]
    split <;> rfl

/-- A text that starts somewhere in a file has the tokens of the text by itself, moved
along. -/
theorem scan_shift (lexer : Lexer) (text file : String) (start : Position) :
    lexer.scan { text, file, start } = (lexer.scan { text, file }).map (·.shift start) := by
  have moved := tokensOf_shift lexer.chain file {} start (Nat.le_refl 1)
    (lexer.segments text.toList)
  rwa [Position.start_shift] at moved

/-! ## Hooks -/

/-- The hook puts what it makes of a token in the token's place, wherever that is. -/
structure Steady (hook : TokenHook) : Prop where
  position : ∀ token, ∀ made ∈ (hook token).value, made.position = token.position
  shift : ∀ (token : Token) (start : Position),
    (hook (token.shift start)).value = (hook token).value.map (·.shift start)

/-- A token that is passed on keeps its place. -/
theorem passOn_steady : Steady passOn :=
  ⟨fun token made member => by rw [List.mem_singleton.mp member], fun _ _ => rfl⟩

/-- The tokens of a definition take the place of the name that they stand for. They are all put at
the position of the name, so they are moved along with it. -/
theorem expand_steady (lexer : Lexer) : Steady lexer.expand := by
  constructor
  · intro token made member
    simp only [expand] at member
    split at member
    · obtain ⟨_, _, rfl⟩ := List.mem_map.mp member
      rfl
    · rw [List.mem_singleton.mp member]
  · intro token start
    have value : (token.shift start).value = token.value := rfl
    simp only [expand, value]
    split
    · rw [List.map_map]
      rfl
    · rfl

/-- What is made of the tokens behind a place is what stands behind it of all that is
made. -/
theorem Steady.value_filter {hook : TokenHook} (steady : Steady hook) (place : Nat)
    (tokens : List Token) :
    (throughHook hook (tokens.filter (place ≤ ·.position.offset))).value =
      (throughHook hook tokens).value.filter (place ≤ ·.position.offset) := by
  simp only [throughHook]
  induction tokens with
  | nil => rfl
  | cons token tokens inductionHypothesis =>
    rw [List.flatMap_cons, List.filter_append, ← inductionHypothesis]
    have own := steady.position token
    by_cases behind : place ≤ token.position.offset
    · have kept : (hook token).value.filter (place ≤ ·.position.offset) = (hook token).value :=
        List.filter_eq_self.mpr fun made member => by simpa [own made member] using behind
      rw [kept, List.filter_cons_of_pos (by simpa using behind), List.flatMap_cons]
    · have dropped : (hook token).value.filter (place ≤ ·.position.offset) = [] :=
        List.filter_eq_nil_iff.mpr fun made member => by simpa [own made member] using behind
      rw [dropped, List.filter_cons_of_neg (by simpa using behind), List.nil_append]

/-- What is made of tokens is moved along with them. -/
theorem Steady.value_shift {hook : TokenHook} (steady : Steady hook) (start : Position)
    (tokens : List Token) :
    (throughHook hook (tokens.map (·.shift start))).value =
      (throughHook hook tokens).value.map (·.shift start) := by
  simp only [throughHook, List.flatMap_map, List.map_flatMap, steady.shift]

/-- Whether tokens are passed on or expanded, lexing can resume at the start of a text and
wherever a region ends: from there on, with the position of that place, it gives exactly the
tokens of the whole whose offset is that of the place or larger. And a source that starts
anywhere in a file has the tokens of the same text at the start of a file, moved along. -/
theorem lexWith_resumes_and_shifts (lexer : Lexer) (hook : TokenHook)
    (usual : hook = passOn ∨ hook = lexer.expand) (text file : String) :
    (∀ (start : Position) (read rest : List Char), text.toList = read ++ rest →
      lexer.Resumes text.toList (Text.byteLength read) →
        (lexer.lexWith hook
            { text := String.ofList rest, file, start := start.advance read }).value =
          (lexer.lexWith hook { text, file, start }).value.filter
            (start.offset + Text.byteLength read ≤ ·.position.offset)) ∧
      ∀ start : Position,
        (lexer.lexWith hook { text, file, start }).value =
          (lexer.lexWith hook { text, file }).value.map (·.shift start) := by
  have steady : Steady hook := by
    rcases usual with rfl | rfl
    · exact passOn_steady
    · exact lexer.expand_steady
  constructor
  · intro start read rest divided resumes
    simp only [lexWith]
    rw [resumes.scan_eq divided, steady.value_filter]
  · intro start
    simp only [lexWith]
    rw [lexer.scan_shift, steady.value_shift]

/-- Blanks and comments, which give no tokens, and marks of two characters, which do. -/
def marked : Lexer :=
  edited [.deliminate " " .none, .filtered " " true, .deliminate "/*" (.pattern "*/"),
    .filtered "/*" true, .deliminate "#" (.measured fun _ => 2)]

/-- Behind the comment, which goes on for two lines, lexing resumes on the second of them,
and only the token on the first is moved to another column. -/
theorem marked_resumes_and_shifts :
    let text := "a /* x\n */b #1 c"
    let start : Position := { line := 3, column := 7, offset := 40 }
    let behind : Position := { line := 4, column := 3, offset := 50 }
    let whole := (marked.lexWith passOn { text, file := "", start }).value
    let rest := (marked.lexWith passOn { text := "b #1 c", file := "", start := behind }).value
    marked.Resumes text.toList 10 ∧
      whole.map (·.position.column) = [7, 3, 5, 8] ∧ rest.map (·.value) = ["b", "#1", "c"] ∧
      rest = whole.filter (50 ≤ ·.position.offset) ∧
      whole = (marked.lexWith passOn { text, file := "" }).value.map (·.shift start) := by
  intro text start behind whole rest
  have resumes : marked.Resumes text.toList 10 :=
    ⟨_, _, (List.take_append_drop 3 _).symm, by decide +kernel⟩
  obtain ⟨resumed, shifted⟩ := marked.lexWith_resumes_and_shifts passOn (.inl rfl) text ""
  refine ⟨resumes, by decide +kernel, by decide +kernel, ?_, shifted start⟩
  exact resumed start "a /* x\n */".toList "b #1 c".toList (by decide) resumes

end Lexer

end Parlance
