import Parlance.Proofs.Lexer.Rules

/-!
# Lexing tiles the text

A tiling cuts a text into regions and runs that follow one another without gaps. A
region stands where a rule applies and is as long as the rule says; a run stands where
no registered pattern begins at any of its characters; and a run goes on for as long
as it can, so no two runs are next to each other. Every text has exactly one tiling,
and it is what the lexer computes.

The tokens of a text are the segments of its tiling that are not regions of filtered
rules. The position of a token counts all characters before it, those of filtered
regions included.
-/

namespace Parlance

namespace Lexer

/-- No registered pattern begins at any character of `run`, which is followed by
`rest`. -/
def Passes (lexer : Lexer) (run rest : List Char) : Prop :=
  ∀ before after, run = before ++ after → after ≠ [] →
    ∀ start, ¬ lexer.Begins start (after ++ rest)

/-- The segments cut the text into regions and runs. -/
inductive Tiling (lexer : Lexer) : List Char → List Segment → Prop where
  | nothing : Tiling lexer [] []
  | region {rule : Rule} {region rest : List Char} {segments : List Segment}
      (nonempty : region ≠ []) (applies : lexer.Applies rule (region ++ rest))
      (length : region.length = rule.regionLength (region ++ rest))
      (others : Tiling lexer rest segments) :
      Tiling lexer (region ++ rest) (.region rule region :: segments)
  | run {run rest : List Char} {segments : List Segment}
      (nonempty : run ≠ []) (passes : lexer.Passes run rest)
      (apart : ∀ next later, segments ≠ .run next :: later)
      (others : Tiling lexer rest segments) :
      Tiling lexer (run ++ rest) (.run run :: segments)

/-- Characters at which no pattern begins are collected. By induction over the run, whose characters
are kept in reverse. -/
theorem segmentsFrom_passes {lexer : Lexer} (keyed : lexer.Keyed) (collected run rest : List Char)
    (passes : lexer.Passes run rest) :
    lexer.segmentsFrom collected (run ++ rest) =
      lexer.segmentsFrom (run.reverse ++ collected) rest := by
  induction run generalizing collected with
  | nil => rfl
  | cons c run inductionHypothesis =>
    have free : lexer.matchAt (c :: (run ++ rest)) = none :=
      (matchAt_eq_none_iff keyed _).mpr (passes [] (c :: run) rfl (by simp))
    have later : lexer.Passes run rest := fun before after divided =>
      passes (c :: before) after (by simp [divided])
    rw [List.cons_append, segmentsFrom, free]
    simp [inductionHypothesis (c :: collected) later]

/-- A region that stands at the start of the text is cut off, and what was collected
becomes a run before it. -/
theorem segmentsFrom_region {lexer : Lexer} (keyed : lexer.Keyed) {rule : Rule}
    {region rest : List Char} (nonempty : region ≠ [])
    (applies : lexer.Applies rule (region ++ rest))
    (length : region.length = rule.regionLength (region ++ rest)) (collected : List Char) :
    lexer.segmentsFrom collected (region ++ rest) =
      Segment.flush collected ++ .region rule region :: lexer.segmentsFrom [] rest := by
  have found := (matchAt_eq_some_iff keyed _ rule).mpr applies
  cases region with
  | nil => exact absurd rfl nonempty
  | cons c more =>
    rw [List.cons_append] at found length ⊢
    rw [segmentsFrom, found]
    simp only [← length]
    simp

/-- Every tiling is what the lexer computes.

Proof: the induction follows the tiling from left to right. A region is found by the
lexer and has the same length. A run is collected character by character; behind it
the text ends, or a region stands there and ends the run, since no run follows. -/
theorem Tiling.eq_segments {lexer : Lexer} (keyed : lexer.Keyed) {text : List Char}
    {segments : List Segment} (tiling : lexer.Tiling text segments) :
    segments = lexer.segments text := by
  induction tiling with
  | nothing => simp [Lexer.segments, segmentsFrom, Segment.flush]
  | region nonempty applies length others inductionHypothesis =>
    rw [Lexer.segments, segmentsFrom_region keyed nonempty applies length, inductionHypothesis]
    rfl
  | @run run rest segments nonempty passes apart others inductionHypothesis =>
    have flushed : Segment.flush run.reverse = [.run run] := by
      simp [Segment.flush, nonempty]
    rw [Lexer.segments, segmentsFrom_passes keyed [] run rest passes, List.append_nil]
    cases others with
    | nothing => rw [segmentsFrom, flushed]
    | region regionNonempty applies length _ =>
      rw [segmentsFrom_region keyed regionNonempty applies length, flushed, inductionHypothesis,
        Lexer.segments, segmentsFrom_region keyed regionNonempty applies length]
      rfl
    | run _ _ _ _ => exact absurd rfl (apart _ _)

/-- A run goes on over a character at which no pattern begins. At the characters before, a pattern
that began would have begun in front of the same text. -/
theorem Passes.snoc {lexer : Lexer} {run rest : List Char} {c : Char}
    (passes : lexer.Passes run (c :: rest)) (free : ∀ start, ¬ lexer.Begins start (c :: rest)) :
    lexer.Passes (run ++ [c]) rest := by
  intro before after divided nonempty start begins
  obtain ⟨inner, last, rfl⟩ := (List.eq_nil_or_concat after).resolve_left nonempty
  rw [List.concat_eq_append, ← List.append_assoc] at divided
  obtain ⟨same, tail⟩ := List.append_inj' divided rfl
  obtain rfl := List.singleton_inj.mp tail
  rw [List.concat_eq_append, List.append_assoc, List.singleton_append] at begins
  cases inner with
  | nil => exact free start begins
  | cons d more => exact passes before (d :: more) same (by simp) start begins

/-- What was collected becomes a run before segments that do not begin with one. -/
theorem Tiling.flush {lexer : Lexer} {collected rest : List Char} {segments : List Segment}
    (passes : lexer.Passes collected.reverse rest)
    (apart : ∀ next later, segments ≠ .run next :: later)
    (others : lexer.Tiling rest segments) :
    lexer.Tiling (collected.reverse ++ rest) (Segment.flush collected ++ segments) := by
  cases collected with
  | nil => exact others
  | cons c more => exact .run (by simp) passes apart others

/-- A rule that is found gives a region at the start of the text. It takes one character at least
and does not go past the end of the text. -/
theorem Tiling.regionAt {lexer : Lexer} {rule : Rule} {c : Char} {rest : List Char}
    {segments : List Segment} (applies : lexer.Applies rule (c :: rest))
    (others : lexer.Tiling ((c :: rest).drop (rule.regionLength (c :: rest))) segments) :
    lexer.Tiling (c :: rest)
      (.region rule ((c :: rest).take (rule.regionLength (c :: rest))) :: segments) := by
  have positive := rule.regionLength_pos c rest
  have inside := rule.regionLength_le_length applies.begins
  have whole := List.take_append_drop (rule.regionLength (c :: rest)) (c :: rest)
  have nonempty : (c :: rest).take (rule.regionLength (c :: rest)) ≠ [] := by
    simp [Nat.pos_iff_ne_zero.mp positive]
  have tiled := Tiling.region nonempty (whole.symm ▸ applies)
    (by rw [whole, List.length_take, Nat.min_eq_left inside]) others
  rwa [whole] at tiled

/-- What the lexer computes is a tiling. The characters collected before the rest of
the text belong to a run that is still open.

Proof: the induction follows the lexer. At the end of the text, and where a rule
applies, the open run is closed; it is followed by nothing or by a region. Anywhere
else one more character goes into the run, and no pattern begins at it. -/
theorem segmentsFrom_tiling {lexer : Lexer} (keyed : lexer.Keyed) (collected text : List Char)
    (passes : lexer.Passes collected.reverse text) :
    lexer.Tiling (collected.reverse ++ text) (lexer.segmentsFrom collected text) := by
  fun_induction lexer.segmentsFrom collected text with
  | case1 collected =>
    have tiled := Tiling.flush passes (by simp) Tiling.nothing
    rwa [List.append_nil (Segment.flush collected)] at tiled
  | case2 collected c rest missing inductionHypothesis =>
    have free := (matchAt_eq_none_iff keyed (c :: rest)).mp missing
    have tiled := inductionHypothesis (by simpa using passes.snoc free)
    simpa using tiled
  | case3 collected c rest rule found length inductionHypothesis =>
    have applies := (matchAt_eq_some_iff keyed (c :: rest) rule).mp found
    have others := inductionHypothesis (by simp [Passes])
    exact Tiling.flush passes (by simp) (Tiling.regionAt applies others)

/-- The tilings of a text are the one that the lexer computes. -/
theorem tiling_iff {lexer : Lexer} (keyed : lexer.Keyed) (text : List Char)
    (segments : List Segment) :
    lexer.Tiling text segments ↔ segments = lexer.segments text := by
  constructor
  · exact Tiling.eq_segments keyed
  · rintro rfl
    exact segmentsFrom_tiling keyed [] text (by simp [Passes])

end Lexer

/-! ## Tokens -/

namespace Position

/-- Reading a text adds its newlines to the line, counts the column anew after each of
them, and adds its bytes to the offset. -/
theorem advance_eq (position : Position) (text : List Char) :
    position.advance text =
      { line := position.line + text.count '\n'
        column := text.foldl (fun column c => if c = '\n' then 0 else column + 1) position.column
        offset := position.offset + Text.byteLength text } := by
  induction text generalizing position with
  | nil => rfl
  | cons c rest inductionHypothesis =>
    have continued := inductionHypothesis (position.step c)
    simp only [advance, List.foldl_cons] at continued ⊢
    rw [continued]
    by_cases newline : c = '\n'
    · simp only [step, newline, if_true, List.count_cons_self, Text.byteLength]
      congr 1 <;> omega
    · simp only [step, newline, if_false, List.count_cons_of_ne newline, Text.byteLength]
      congr 1
      omega

end Position

namespace Segment

/-- Segments with the text before each of them, `before` being the text before the
first. -/
def withTextBefore (before : List Char) : List Segment → List (List Char × Segment)
  | [] => []
  | segment :: rest => (before, segment) :: withTextBefore (before ++ segment.text) rest

end Segment

/-- The token that a segment of a source gives behind the text `before` it: its text,
its class, the lines, columns and bytes of the text before it counted on from the start
of the source, and the file. -/
def Source.tokenOf (source : Source) (chain : Chain) (before : List Char) (segment : Segment) :
    Token where
  value := String.ofList segment.text
  tag := match segment with
    | .region .. => .deliminator
    | .run text => chain.classify (String.ofList text)
  position :=
    { line := source.start.line + before.count '\n'
      column := before.foldl (fun column c => if c = '\n' then 0 else column + 1)
        source.start.column
      offset := source.start.offset + Text.byteLength before }
  file := source.file

namespace Lexer

/-- The tokens of segments are those of the kept ones, each behind the text before it. By induction
over the segments, where the position is always that of the text before. -/
theorem tokensOf_eq (source : Source) (chain : Chain) (before : List Char)
    (segments : List Segment) :
    tokensOf chain source.file (source.start.advance before) segments =
      ((Segment.withTextBefore before segments).filter (fun placed => placed.2.isKept)).map
        (fun placed => source.tokenOf chain placed.1 placed.2) := by
  induction segments generalizing before with
  | nil => rfl
  | cons segment rest inductionHypothesis =>
    have others := inductionHypothesis (before ++ segment.text)
    rw [Position.advance_append] at others
    simp only [tokensOf, Segment.withTextBefore, others, List.filter_cons]
    split
    · simp only [List.map_cons, List.cons.injEq, and_true]
      rw [Position.advance_eq]
      cases segment <;> rfl
    · rfl

/-- Lexing a source, however the lexer was edited, is tiling it as long as tokens are
only passed on. There is exactly one tiling of the text, and the tokens are its
segments other than the regions of filtered rules, in order: each has the text of its
segment, the class of a deliminator for a region and what the chain says for a run,
and the position that its first character has in the source. Nothing is reported. -/
theorem lexWith_passOn_tiles (edits : List Edit) (source : Source) :
    ∃ segments, (edited edits).Tiling source.text.toList segments ∧
      (∀ other, (edited edits).Tiling source.text.toList other → other = segments) ∧
      (edited edits).lexWith passOn source =
        { value :=
            ((Segment.withTextBefore [] segments).filter (fun placed => placed.2.isKept)).map
              (fun placed => source.tokenOf (edited edits).chain placed.1 placed.2)
          diagnostics := [] } := by
  have tilings := tiling_iff (keyed_edited edits) source.text.toList
  refine ⟨(edited edits).segments source.text.toList, (tilings _).mpr rfl,
    fun other tiling => (tilings other).mp tiling, ?_⟩
  have tokens := tokensOf_eq source (edited edits).chain []
    ((edited edits).segments source.text.toList)
  simp only [Position.advance, List.foldl_nil] at tokens
  simp [lexWith, throughHook, passOn, scan, tokens]

end Lexer

end Parlance
