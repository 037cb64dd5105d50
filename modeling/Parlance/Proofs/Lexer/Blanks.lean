import Parlance.Proofs.Lexer.Tiling

/-!
# Blanks separate segments

Where spaces and newlines are regions that give no tokens, and no other start pattern has
one in it, the segments before a blank do not depend on what stands behind it. A text can
be changed there, and even end there, as long as it does not go on otherwise than with a
blank: no pattern reaches over the blank, and none that began in the text before is lost.

Ends that are computed from the text are left out, since they may look beyond any blank.
An end pattern may contain blanks; it is part of its region, and so is what is escaped.
-/

namespace Parlance

namespace Rule

/-- A region that ends before the text does has its end pattern. By induction over the search, which
passes the end pattern as a whole. -/
theorem length_le_throughPattern {escape : Option Char} {final text : List Char}
    (inside : throughPattern escape final text < text.length) :
    final.length ≤ throughPattern escape final text := by
  fun_induction throughPattern escape final text with
  | case1 => simp at inside
  | case2 => simp at inside
  | case3 => exact Nat.le_refl _
  | case4 => simp at inside
  | case5 c next rest _ inductionHypothesis =>
    simp only [List.length_cons] at inside
    have later := inductionHypothesis (by omega)
    omega
  | case6 => exact Nat.le_refl _
  | case7 c next rest _ _ inductionHypothesis =>
    simp only [List.length_cons] at inside inductionHypothesis
    have later := inductionHypothesis (by omega)
    omega

/-- A pattern that is not longer than the text before it does not look beyond it. -/
theorem isPrefixOf_append_congr {pattern text : List Char} (short : pattern.length ≤ text.length)
    (rest page : List Char) :
    pattern.isPrefixOf (text ++ rest) = pattern.isPrefixOf (text ++ page) := by
  have inside (more : List Char) : pattern <+: text ++ more ↔ pattern <+: text :=
    ⟨fun begins => List.prefix_of_prefix_length_le begins (List.prefix_append _ _) short,
      fun begins => begins.trans (List.prefix_append _ _)⟩
  rw [Bool.eq_iff_iff, List.isPrefixOf_iff_prefix, List.isPrefixOf_iff_prefix, inside, inside]

/-- A character that is escaped is passed over. -/
theorem throughPattern_escaped {escape : Option Char} (final : List Char) {c : Char}
    (escapes : escape = some c) (next : Char) (rest : List Char) :
    throughPattern escape final (c :: next :: rest) = 2 + throughPattern escape final rest := by
  rw [throughPattern, if_pos escapes]

/-- The end pattern stands at a character that escapes none, or is found behind it. -/
theorem throughPattern_unescaped {escape : Option Char} (final : List Char) {c : Char}
    (plain : escape ≠ some c) (rest : List Char) :
    throughPattern escape final (c :: rest) =
      if final.isPrefixOf (c :: rest) then final.length
      else 1 + throughPattern escape final rest := by
  cases rest <;> simp [throughPattern, plain]

/-- A region that ends before the text does ends there whatever follows.

Proof: the induction follows the search for the end pattern. The pattern is no longer than
what is left of the region, so it is found in the region or not at all. -/
theorem throughPattern_append {escape : Option Char} {final rest : List Char}
    (nonempty : final ≠ []) (more : rest ≠ []) (page body : List Char)
    (ends : throughPattern escape final (body ++ rest) = body.length) :
    throughPattern escape final (body ++ page) = body.length := by
  have short : final.length ≤ body.length := by
    rw [← ends]
    refine length_le_throughPattern ?_
    rw [ends, List.length_append]
    have positive := List.length_pos_iff.mpr more
    omega
  match body with
  | [] => exact absurd short (Nat.not_le.mpr (List.length_pos_iff.mpr nonempty))
  | c :: body =>
    by_cases escapes : escape = some c
    · match body with
      | [] =>
        obtain ⟨next, others, rfl⟩ := List.exists_cons_of_ne_nil more
        rw [List.cons_append, List.nil_append, throughPattern_escaped final escapes] at ends
        simp only [List.length_cons, List.length_nil] at ends
        omega
      | next :: body =>
        rw [List.cons_append, List.cons_append, throughPattern_escaped final escapes] at ends ⊢
        simp only [List.length_cons] at ends ⊢
        rw [throughPattern_append nonempty more page body (by omega)]
        omega
    · rw [List.cons_append, throughPattern_unescaped final escapes] at ends ⊢
      rw [← List.cons_append, isPrefixOf_append_congr short _ rest, List.cons_append]
      split at ends
      · rename_i found
        rw [if_pos found, ends]
      · rename_i missing
        rw [List.length_cons] at ends ⊢
        rw [if_neg missing, throughPattern_append nonempty more page body (by omega)]
        omega
termination_by body.length

/-- The length of a region without a computed end is that of its start pattern, and of
what stands up to an end pattern if there is one. -/
theorem regionLength_cases {rule : Rule} {final : Option String}
    (ending : rule.ending = Lexer.endingOf final) :
    (∀ text, rule.regionLength text = rule.start.toList.length) ∨
      ∃ pattern : List Char, pattern ≠ [] ∧ ∀ text,
        rule.regionLength (rule.start.toList ++ text) =
          rule.start.toList.length + throughPattern rule.escape pattern text := by
  cases final with
  | none => exact .inl fun text => by simp [regionLength, ending, Lexer.endingOf]
  | some pattern =>
    by_cases empty : pattern.isEmpty
    · exact .inl fun text => by simp [regionLength, ending, Lexer.endingOf, empty]
    · refine .inr ⟨pattern.toList, by simpa using empty, fun text => ?_⟩
      simp [regionLength, ending, Lexer.endingOf, empty]

end Rule

namespace Lexer

/-- The two characters that keep tokens apart. -/
def Blank (c : Char) : Prop := c = ' ' ∨ c = '\n'

/-- The text ends here or goes on with a blank. -/
def Breaks (text : List Char) : Prop := ∀ c rest, text = c :: rest → Blank c

/-- The lexer leaves out spaces and newlines, no other pattern has one of them in it, and
no end is computed: regions end with their start pattern or behind an end pattern. -/
structure SkipsBlanks (lexer : Lexer) : Prop where
  space : ∃ rule, lexer.rule? " " = some rule ∧ rule.ending = .none ∧ rule.filtered
  newline : ∃ rule, lexer.rule? "\n" = some rule ∧ rule.ending = .none ∧ rule.filtered
  others : ∀ start, (lexer.rule? start).isSome → start ≠ " " → start ≠ "\n" →
    ' ' ∉ start.toList ∧ '\n' ∉ start.toList
  endings : ∀ start rule, lexer.rule? start = some rule → ∃ final, rule.ending = endingOf final

variable {lexer : Lexer}

/-- The rule of a blank. There are two of them, and each has a rule that ends with its pattern and
gives no token. -/
theorem SkipsBlanks.blankRule (skips : lexer.SkipsBlanks) (keyed : lexer.Keyed) {c : Char}
    (blank : Blank c) :
    ∃ rule, lexer.rule? rule.start = some rule ∧ rule.start.toList = [c] ∧
      rule.ending = .none ∧ rule.filtered := by
  rcases blank with rfl | rfl
  · obtain ⟨rule, found, ending, filtered⟩ := skips.space
    have own := keyed " " rule found
    exact ⟨rule, by rw [own, found], by rw [own]; rfl, ending, filtered⟩
  · obtain ⟨rule, found, ending, filtered⟩ := skips.newline
    have own := keyed "\n" rule found
    exact ⟨rule, by rw [own, found], by rw [own]; rfl, ending, filtered⟩

/-- A pattern with a blank in it is that blank. All other patterns have neither of the two blanks in
them. -/
theorem SkipsBlanks.pattern_eq (skips : lexer.SkipsBlanks) {start : String}
    (registered : (lexer.rule? start).isSome) {c : Char} (blank : Blank c)
    (inside : c ∈ start.toList) : start.toList = [c] := by
  by_cases space : start = " "
  · subst space
    rw [List.mem_singleton.mp inside]
    rfl
  by_cases newline : start = "\n"
  · subst newline
    rw [List.mem_singleton.mp inside]
    rfl
  obtain ⟨noSpace, noNewline⟩ := skips.others start registered space newline
  rcases blank with rfl | rfl
  · exact absurd inside noSpace
  · exact absurd inside noNewline

/-! ## Two texts that agree up to a blank -/

/-- The page goes on as the text does until it ends or comes to a blank. -/
def Agrees (text page : List Char) : Prop :=
  ∃ shared others behind, text = shared ++ others ∧ page = shared ++ behind ∧ Breaks behind

/-- A page that breaks off at once agrees with every text. -/
theorem Breaks.agrees {page : List Char} (breaks : Breaks page) (text : List Char) :
    Agrees text page :=
  ⟨[], text, page, rfl, rfl, breaks⟩

/-- Text and page still agree with the same characters in front of both. -/
theorem Agrees.append {text page : List Char} (agrees : Agrees text page) (before : List Char) :
    Agrees (before ++ text) (before ++ page) := by
  obtain ⟨shared, others, behind, rfl, rfl, breaks⟩ := agrees
  exact ⟨before ++ shared, others, behind, by simp, by simp, breaks⟩

/-- A pattern that begins on the page in a piece that the text has too begins in the text.

Proof: a pattern that does not end in the part that page and text share would reach to the
blank behind it, and a pattern with a blank in it has nothing else. -/
theorem SkipsBlanks.begins (skips : lexer.SkipsBlanks) {piece text page : List Char}
    (nonempty : piece ≠ []) (agrees : Agrees text page) {start : String}
    (begins : lexer.Begins start (piece ++ page)) : lexer.Begins start (piece ++ text) := by
  obtain ⟨shared, others, behind, rfl, rfl, breaks⟩ := agrees
  obtain ⟨registered, beyond, whole⟩ := begins
  refine ⟨registered, ?_⟩
  rw [← List.append_assoc] at whole ⊢
  rcases List.append_eq_append_iff.mp whole with ⟨more, inside, _⟩ | ⟨more, longer, reached⟩
  · rw [inside, List.append_assoc]
    exact List.prefix_append _ _
  · cases more with
    | nil =>
      rw [longer, List.append_nil]
      exact List.prefix_append _ _
    | cons c more =>
      have alone := skips.pattern_eq registered (breaks c _ reached) (by simp [longer])
      rw [longer] at alone
      have length := congrArg List.length alone
      have positive := List.length_pos_iff.mpr nonempty
      simp only [List.length_append, List.length_cons, List.length_nil] at length
      omega

/-- A run of the text is a run on the page. -/
theorem SkipsBlanks.passes (skips : lexer.SkipsBlanks) {run text page : List Char}
    (agrees : Agrees text page) (passes : lexer.Passes run text) : lexer.Passes run page := by
  intro before after divided nonempty start begins
  exact passes before after divided nonempty start (skips.begins nonempty agrees begins)

/-- The start pattern of a region is in the region. A region ends with its start pattern, or goes on
behind it to an end pattern. -/
theorem SkipsBlanks.start_in_region (skips : lexer.SkipsBlanks) {rule : Rule}
    {region text : List Char} (applies : lexer.Applies rule (region ++ text))
    (length : region.length = rule.regionLength (region ++ text)) :
    rule.start.toList <+: region := by
  refine List.prefix_of_prefix_length_le applies.begins (List.prefix_append _ _) ?_
  obtain ⟨final, ending⟩ := skips.endings _ rule applies.registered
  obtain ⟨behind, whole⟩ := applies.begins
  rcases Rule.regionLength_cases ending with plain | ⟨pattern, _, through⟩
  · exact Nat.le_of_eq (by rw [length, plain])
  · rw [length, ← whole, through]
    exact Nat.le_add_right _ _

/-- A region of the text is a region on the page, provided that the page ends where the
text does. -/
theorem SkipsBlanks.region (skips : lexer.SkipsBlanks) {rule : Rule} {region text page : List Char}
    (nonempty : region ≠ []) (agrees : Agrees text page) (ends : text = [] → page = [])
    (applies : lexer.Applies rule (region ++ text))
    (length : region.length = rule.regionLength (region ++ text)) :
    lexer.Applies rule (region ++ page) ∧ region.length = rule.regionLength (region ++ page) := by
  have inside := skips.start_in_region applies length
  refine ⟨⟨applies.registered, inside.trans (List.prefix_append _ _), fun start begins =>
    applies.longest start (skips.begins nonempty agrees begins)⟩, ?_⟩
  obtain ⟨final, ending⟩ := skips.endings _ rule applies.registered
  obtain ⟨body, rfl⟩ := inside
  rcases Rule.regionLength_cases ending with plain | ⟨pattern, some, through⟩
  · rw [length, plain, plain]
  · rw [List.append_assoc, through, List.length_append] at length ⊢
    congr 1
    by_cases finished : text = []
    · rw [finished] at length
      rw [ends finished]
      omega
    · exact (Rule.throughPattern_append some finished page body (by omega)).symm

/-! ## Blanks -/

/-- A blank is a region of its own and gives no token, whatever follows. No other rule applies
there, because a longer pattern that begins with a blank would have it inside. -/
theorem Tiling.blank (skips : lexer.SkipsBlanks) (keyed : lexer.Keyed) {c : Char} (blank : Blank c)
    {text : List Char} {segments : List Segment} (tiling : lexer.Tiling text segments) :
    ∃ rule, rule.filtered ∧ lexer.Tiling (c :: text) (.region rule [c] :: segments) := by
  obtain ⟨rule, registered, pattern, ending, filtered⟩ := skips.blankRule keyed blank
  have single : rule.start.length = 1 := by rw [← String.length_toList, pattern]; rfl
  have applies : lexer.Applies rule ([c] ++ text) := by
    refine ⟨registered, by rw [pattern]; exact List.prefix_append _ _, ?_⟩
    rintro start ⟨known, begins⟩
    rw [single, ← String.length_toList]
    cases characters : start.toList with
    | nil => exact Nat.zero_le _
    | cons first more =>
      rw [characters, List.singleton_append, List.cons_prefix_cons] at begins
      obtain ⟨rfl, _⟩ := begins
      have alone := skips.pattern_eq known blank (by simp [characters])
      exact Nat.le_of_eq (by rw [← characters, alone]; rfl)
  refine ⟨rule, filtered, .region (by simp) applies ?_ tiling⟩
  simp [Rule.regionLength, ending, pattern]

/-- A region of a filtered rule only moves what follows it. -/
theorem tokensOf_filtered (chain : Chain) (file : String) (position : Position) {rule : Rule}
    (filtered : rule.filtered) (region : List Char) (segments : List Segment) :
    tokensOf chain file position (.region rule region :: segments) =
      tokensOf chain file (position.advance region) segments := by
  simp [tokensOf, Segment.isKept, Segment.text, filtered]

/-- Blanks give no tokens, and those of the text behind them are where the blanks end. By induction
over the blanks, each of which moves the position on. -/
theorem Tiling.blanks (skips : lexer.SkipsBlanks) (keyed : lexer.Keyed) {padding : List Char}
    (blank : ∀ c ∈ padding, Blank c) {text : List Char} {segments : List Segment}
    (tiling : lexer.Tiling text segments) :
    ∃ padded, lexer.Tiling (padding ++ text) padded ∧ (padding = [] → padded = segments) ∧
      ∀ chain file position, tokensOf chain file position padded =
        tokensOf chain file (position.advance padding) segments := by
  induction padding with
  | nil => exact ⟨segments, tiling, fun _ => rfl, fun _ _ _ => rfl⟩
  | cons c padding inductionHypothesis =>
    obtain ⟨first, others⟩ := List.forall_mem_cons.mp blank
    obtain ⟨padded, tiled, _, tokens⟩ := inductionHypothesis others
    obtain ⟨rule, filtered, whole⟩ := tiled.blank skips keyed first
    refine ⟨_, whole, by simp, fun chain file position => ?_⟩
    rw [tokensOf_filtered chain file position filtered, tokens]
    rfl

/-- A text that begins with a blank does not begin with a run. The pattern of the blank begins
there, while no pattern begins inside of a run. -/
theorem Tiling.not_run_of_breaks (skips : lexer.SkipsBlanks) (keyed : lexer.Keyed)
    {text : List Char} (breaks : Breaks text) {segments : List Segment}
    (tiling : lexer.Tiling text segments) (run : List Char) (later : List Segment) :
    segments ≠ .run run :: later := by
  rintro rfl
  cases tiling with
  | run nonempty passes apart others =>
    obtain ⟨c, more, rfl⟩ := List.exists_cons_of_ne_nil nonempty
    obtain ⟨rule, registered, pattern, _⟩ := skips.blankRule keyed (breaks c _ rfl)
    refine passes [] (c :: more) rfl (by simp) rule.start ⟨by simp [registered], ?_⟩
    rw [pattern]
    exact List.prefix_append [c] _

end Lexer

end Parlance
