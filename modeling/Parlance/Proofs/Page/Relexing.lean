import Mathlib.Data.List.Chain
import Parlance.Proofs.Page.Layout

/-!
# Lexing a page again

A page that is made of the tokens of a text has blanks where the text has regions that
give no tokens. Lexing the page gives the tokens of the text again, with the same texts and
classes on the same lines and in the same columns, as long as no token is set off by a space
from the one that it touches. Only offsets may differ.

Two counts run side by side: the position in the text, and the place where the page is.
They are level behind each token. In between, the position in the text moves on over regions
that give no tokens, and the page stays behind; padding makes up for it before the next
token. So tokens that touch in the text touch on the page, and tokens that do not touch are
kept apart by a blank.
-/

namespace Parlance

/-- What a reader sees of a token: its text, its class, its line and its column. -/
def Token.appearance (token : Token) : String × Tag × Nat × Nat :=
  (token.value, token.tag, token.position.line, token.position.column)

namespace Page

/-- None of the tokens is set off where each is put directly behind the text of the one
before it or behind padding. -/
def NoneSetOff (position : Position) : List Token → Prop
  | [] => True
  | token :: tokens =>
    ¬ SetOff position token ∧ NoneSetOff (token.position.advance token.value.toList) tokens

/-- Whether a token is set off depends on the line and the column of the page only. Only the
first token is compared with it: each of the others is compared with the place behind the token
before it. -/
theorem noneSetOff_congr {first second : Position} (level : first.Level second)
    (tokens : List Token) : NoneSetOff first tokens ↔ NoneSetOff second tokens := by
  cases tokens with
  | nil => exact Iff.rfl
  | cons token tokens =>
    have same : SetOff first token ↔ SetOff second token := by
      unfold SetOff
      constructor
      · rintro ⟨synthetic, reached, inside⟩
        exact ⟨synthetic, level.symm.trans reached, inside⟩
      · rintro ⟨synthetic, reached, inside⟩
        exact ⟨synthetic, level.trans reached, inside⟩
    rw [NoneSetOff, NoneSetOff, same]

/-- The second token is one of a definition and stands directly behind the first on its
line, so that a page sets it off from the first. -/
def SetsApart (first second : Token) : Prop :=
  SetOff (first.position.advance first.value.toList) second

instance (first second : Token) : Decidable (SetsApart first second) :=
  inferInstanceAs (Decidable (SetOff _ second))

/-- Whether a token is set off depends only on the token before it. -/
theorem noneSetOff_iff_isChain (first : Token) (tokens : List Token) :
    NoneSetOff (first.position.advance first.value.toList) tokens ↔
      (first :: tokens).IsChain fun token next => ¬ SetsApart token next := by
  induction tokens generalizing first with
  | nil => simp [NoneSetOff]
  | cons next tokens inductionHypothesis =>
    rw [NoneSetOff, List.isChain_cons_cons, inductionHypothesis, SetsApart]

/-- The first token of a page touches nothing. -/
theorem noneSetOff_start_iff (tokens : List Token) :
    NoneSetOff {} tokens ↔ tokens.IsChain fun token next => ¬ SetsApart token next := by
  cases tokens with
  | nil => simp [NoneSetOff]
  | cons first tokens =>
    have free : ¬ SetOff {} first := fun setOff => setOff.2.2 setOff.2.1.column.symm
    rw [NoneSetOff, noneSetOff_iff_isChain, and_iff_right free]

end Page

namespace Lexer

open Page

variable {lexer : Lexer}

/-- The token of a segment at the given position. -/
def tokenAt (chain : Chain) (file : String) (position : Position) (segment : Segment) : Token where
  value := String.ofList segment.text
  tag := segment.tag chain
  position := position
  file := file

/-- A segment that is kept gives one token, at the place where the segment begins. -/
theorem tokensOf_kept (chain : Chain) (file : String) (position : Position) {segment : Segment}
    (kept : segment.isKept) (segments : List Segment) :
    tokensOf chain file position (segment :: segments) =
      tokenAt chain file position segment ::
        tokensOf chain file (position.advance segment.text) segments := by
  rw [tokensOf, if_pos kept, tokenAt]

/-- Tokens stand at or behind the start of their segments. By induction over the segments, whose
texts never move the position back. -/
theorem notAfter_of_mem_tokensOf {chain : Chain} {file : String} {position : Position}
    {segments : List Segment} {token : Token}
    (member : token ∈ tokensOf chain file position segments) :
    position.NotAfter token.position := by
  induction segments generalizing position with
  | nil => simp [tokensOf] at member
  | cons segment segments inductionHypothesis =>
    have moved : position.NotAfter (position.advance segment.text) := position.notAfter_advance _
    simp only [tokensOf] at member
    split at member
    · rcases List.mem_cons.mp member with rfl | later
      · exact (Position.Level.refl position).notAfter
      · exact moved.trans (inductionHypothesis later)
    · exact moved.trans (inductionHypothesis member)

/-- Padding begins with a blank. -/
theorem breaks_append {padding : List Char} (nonempty : padding ≠ [])
    (blank : ∀ c ∈ padding, Blank c) (text : List Char) : Breaks (padding ++ text) := by
  obtain ⟨first, others, rfl⟩ := List.exists_cons_of_ne_nil nonempty
  rintro c rest equal
  obtain ⟨rfl, _⟩ := List.cons.inj equal
  exact blank first List.mem_cons_self

/-- A page that has not reached the place of the next token goes on with a blank. -/
theorem breaks_textOf {place position : Position} (before : place.Before position) (chain : Chain)
    (file : String) (segments : List Segment) :
    Breaks (textOf place (tokensOf chain file position segments)) := by
  cases tokens : tokensOf chain file position segments with
  | nil => simp [textOf, Breaks]
  | cons token others =>
    have member : token ∈ tokensOf chain file position segments := by simp [tokens]
    have reached := before.of_notAfter (notAfter_of_mem_tokensOf member)
    rw [textOf, List.append_assoc]
    exact breaks_append (padding_ne_nil reached) (padding_blank place token) _

/-- The segments `relaid` of the page that the tokens of a text make, the page being at the
given place. The page agrees with the text, does not begin with a run where the text does
not, and has tokens that look the same exactly when none is set off. -/
structure Relaid (lexer : Lexer) (text : List Char) (segments : List Segment) (place : Position)
    (tokens : List Token) (relaid : List Segment) : Prop where
  tiling : lexer.Tiling (textOf place tokens) relaid
  agrees : Agrees text (textOf place tokens)
  apart : (∀ run later, segments ≠ .run run :: later) →
    ∀ run later, relaid ≠ .run run :: later
  alike : ∀ file, (tokensOf lexer.chain file place relaid).map Token.appearance =
    tokens.map Token.appearance ↔ NoneSetOff place tokens

/-- A token that is set off does not look the same: on the page a space stands in its
place. -/
theorem relaid_of_setOff (skips : lexer.SkipsBlanks) (keyed : lexer.Keyed) (text : List Char)
    (segments : List Segment) {place : Position} {token : Token} (setOff : SetOff place token)
    (tokens : List Token) :
    ∃ relaid, lexer.Relaid text segments place (token :: tokens) relaid := by
  obtain ⟨behind, page⟩ : ∃ behind, textOf place (token :: tokens) = ' ' :: behind :=
    ⟨_, by rw [textOf, padding_of_setOff setOff]; rfl⟩
  have breaks : Breaks (textOf place (token :: tokens)) := by
    rw [page]
    exact @breaks_append [' '] (by simp) (by simp [Blank]) behind
  have others := (tiling_iff keyed behind _).mpr rfl
  obtain ⟨rule, filtered, whole⟩ := others.blank skips keyed (.inl rfl)
  rw [← page] at whole
  refine ⟨_, whole, breaks.agrees text, fun _ => whole.not_run_of_breaks skips keyed breaks, ?_⟩
  intro file
  refine iff_of_false ?_ fun none => none.1 setOff
  rw [tokensOf_filtered lexer.chain file place filtered]
  cases found : tokensOf lexer.chain file (place.advance [' ']) (lexer.segments behind) with
  | nil => simp
  | cons first later =>
    intro same
    have member : first ∈ tokensOf lexer.chain file (place.advance [' ']) (lexer.segments behind) :=
      found ▸ List.mem_cons_self
    have passed : place.Before (place.advance [' ']) := place.before_advance (by simp)
    have moved := passed.of_notAfter (notAfter_of_mem_tokensOf member)
    simp only [List.map_cons, List.cons.injEq, Token.appearance, Prod.mk.injEq] at same
    obtain ⟨⟨_, _, line, column⟩, _⟩ := same
    exact moved.not_level (setOff.2.1.trans ⟨line.symm, column.symm⟩)

/-- A segment whose token is reached by its padding stands on the page as in the text, and
the page is level with the text behind it. -/
theorem relaid_of_reached (skips : lexer.SkipsBlanks) (keyed : lexer.Keyed) {segment : Segment}
    (kept : segment.isKept) {file : String} {position place : Position} {spacing : List Char}
    (padded : padding place (tokenAt lexer.chain file position segment) = spacing)
    (free : ¬ SetOff place (tokenAt lexer.chain file position segment))
    (reached : (place.advance spacing).Level position)
    {rest : List Char} {segments relaid : List Segment} {later : List Token}
    (laid : lexer.Relaid rest segments (place.advance (spacing ++ segment.text)) later relaid)
    (cut : lexer.Tiling
      (segment.text ++ textOf (place.advance (spacing ++ segment.text)) later)
      (segment :: relaid)) :
    ∃ whole, lexer.Relaid (segment.text ++ rest) (segment :: segments) place
      (tokenAt lexer.chain file position segment :: later) whole := by
  have text : (tokenAt lexer.chain file position segment).value.toList = segment.text :=
    String.toList_ofList
  have page : textOf place (tokenAt lexer.chain file position segment :: later) =
      spacing ++ (segment.text ++ textOf (place.advance (spacing ++ segment.text)) later) := by
    rw [textOf, padded, text, List.append_assoc]
  have blank : ∀ c ∈ spacing, Blank c := padded ▸ padding_blank place _
  obtain ⟨whole, tiled, unpadded, tokens⟩ := cut.blanks skips keyed blank
  rw [← page] at tiled
  refine ⟨whole, tiled, ?_, ?_, ?_⟩
  · rw [page]
    by_cases empty : spacing = []
    · subst empty
      exact laid.agrees.append segment.text
    · exact (breaks_append empty blank _).agrees _
  · intro apart run following
    by_cases empty : spacing = []
    · rw [unpadded empty]
      exact fun equal => apart run segments (by rw [(List.cons.inj equal).1])
    · refine tiled.not_run_of_breaks skips keyed ?_ run following
      rw [page]
      exact breaks_append empty blank _
  · intro again
    have same : (tokenAt lexer.chain again (place.advance spacing) segment).appearance =
        (tokenAt lexer.chain file position segment).appearance := by
      simp only [Token.appearance, tokenAt, reached.line, reached.column]
    have level : (place.advance (spacing ++ segment.text)).Level
        (position.advance segment.text) := by
      rw [Position.advance_append]
      exact reached.advance segment.text
    rw [tokens, tokensOf_kept lexer.chain again _ kept, ← Position.advance_append, List.map_cons,
      List.map_cons, same, List.cons_inj_right, laid.alike again, NoneSetOff, text,
      noneSetOff_congr level, and_iff_right free]
    exact Iff.rfl

/-- A segment that gives a token is laid out where what follows it is, and where it is cut off
from the page that follows it.

Proof: a token that is set off ends the argument, since nothing behind it can make up for the
space. Any other is reached by its padding. -/
theorem relaid_of_kept (skips : lexer.SkipsBlanks) (keyed : lexer.Keyed) {segment : Segment}
    (kept : segment.isKept) {file : String} {position place : Position}
    (notAfter : place.NotAfter position) {rest : List Char} {segments : List Segment}
    {later : List Token}
    (others : ∀ next : Position, next.NotAfter (position.advance segment.text) →
      ∃ relaid, lexer.Relaid rest segments next later relaid ∧
        lexer.Tiling (segment.text ++ textOf next later) (segment :: relaid)) :
    ∃ whole, lexer.Relaid (segment.text ++ rest) (segment :: segments) place
      (tokenAt lexer.chain file position segment :: later) whole := by
  by_cases setOff : SetOff place (tokenAt lexer.chain file position segment)
  · exact relaid_of_setOff skips keyed _ _ setOff later
  · have reached := padding_reaches notAfter setOff
    have level := reached.advance segment.text
    rw [← Position.advance_append] at level
    obtain ⟨relaid, laid, cut⟩ := others _ level.notAfter
    exact relaid_of_reached skips keyed kept rfl setOff reached laid cut

/-- The page that the tokens of a text make is cut as the text is.

Proof: the induction follows the tiling of the text. Behind a region that gives no token, the
page has fallen behind and goes on with a blank. -/
theorem Tiling.relaid (skips : lexer.SkipsBlanks) (keyed : lexer.Keyed) (file : String)
    {text : List Char} {segments : List Segment} (tiling : lexer.Tiling text segments)
    {position place : Position} (notAfter : place.NotAfter position) :
    ∃ relaid, lexer.Relaid text segments place (tokensOf lexer.chain file position segments)
      relaid := by
  induction tiling generalizing position place with
  | nothing =>
    exact ⟨[], .nothing, ⟨[], [], [], rfl, rfl, by simp [Breaks]⟩, fun apart => apart,
      fun _ => by simp [tokensOf, NoneSetOff]⟩
  | @region rule region rest segments nonempty applies length others inductionHypothesis =>
    by_cases filtered : rule.filtered
    · have before := notAfter.before (position.before_advance nonempty)
      have breaks := breaks_textOf before lexer.chain file segments
      rw [tokensOf_filtered lexer.chain file position filtered]
      obtain ⟨relaid, laid⟩ := inductionHypothesis before.notAfter
      exact ⟨relaid, laid.tiling, breaks.agrees _,
        fun _ => laid.tiling.not_run_of_breaks skips keyed breaks, laid.alike⟩
    · have kept : (Segment.region rule region).isKept := by simp [Segment.isKept, filtered]
      rw [tokensOf_kept lexer.chain file position kept]
      refine relaid_of_kept skips keyed kept notAfter fun next behind => ?_
      obtain ⟨relaid, laid⟩ := inductionHypothesis behind
      have ends : rest = [] →
          textOf next (tokensOf lexer.chain file (position.advance region) segments) = [] := by
        rintro rfl
        rw [others.eq_segments keyed]
        simp [Lexer.segments, segmentsFrom, Segment.flush, tokensOf, textOf]
      obtain ⟨stillApplies, sameLength⟩ := skips.region nonempty laid.agrees ends applies length
      exact ⟨relaid, laid, .region nonempty stillApplies sameLength laid.tiling⟩
  | @run run rest segments nonempty passes apart others inductionHypothesis =>
    have kept : (Segment.run run).isKept := rfl
    rw [tokensOf_kept lexer.chain file position kept]
    refine relaid_of_kept skips keyed kept notAfter fun next behind => ?_
    obtain ⟨relaid, laid⟩ := inductionHypothesis behind
    exact ⟨relaid, laid,
      .run nonempty (skips.passes laid.agrees passes) (laid.apart apart) laid.tiling⟩

/-- The tokens that are passed on are those of the segments. -/
theorem lexWith_passOn_value (lexer : Lexer) (text file : String) :
    (lexer.lexWith passOn { text, file }).value =
      tokensOf lexer.chain file {} (lexer.segments text.toList) := by
  simp [lexWith, throughHook, passOn, scan]

/-- Where blanks give no tokens, the page that the tokens of a text make has tokens with the
same texts and classes in the same places, exactly when no token of the text is set off from
the one before it. However the lexer was edited, this is the only thing that can go wrong:
a token that the chain gives the class of tokens of definitions, and that directly follows
another on its line. -/
theorem relexed_appearance_iff (edits : List Edit) (skips : (edited edits).SkipsBlanks)
    (text file again : String) :
    let tokens := ((edited edits).lexWith passOn { text, file }).value
    let page := Page.ofTokens false tokens
    let relexed := ((edited edits).lexWith passOn { text := page, file := again }).value
    relexed.map Token.appearance = tokens.map Token.appearance ↔
      tokens.IsChain fun first second => ¬ SetsApart first second := by
  intro tokens page relexed
  have keyed := keyed_edited edits
  have tiling := (tiling_iff keyed text.toList _).mpr rfl
  obtain ⟨relaid, laid⟩ := tiling.relaid skips keyed file (Position.Level.refl {}).notAfter
  rw [← lexWith_passOn_value (edited edits) text file] at laid
  have segments := laid.tiling.eq_segments keyed
  rw [← Page.ofTokens_eq] at segments
  have alike := laid.alike again
  rw [segments, ← lexWith_passOn_value (edited edits) page again, noneSetOff_start_iff] at alike
  exact alike

/-- Blanks and comments up to the end of the line, which give no tokens, and parentheses,
which do. -/
def remarks (chain : Chain) : List Edit :=
  [.deliminate " " .none, .filtered " " true, .deliminate "\n" .none, .filtered "\n" true,
    .deliminate "//" (.pattern "\n"), .filtered "//" true, .deliminate "(" .none,
    .deliminate ")" .none, .tagged chain]

/-- The rules of the example are those for blanks, parentheses and comments. They are listed, and
the list is looked through. -/
theorem remarks_rule {chain : Chain} {start : String} {rule : Rule}
    (found : (edited (remarks chain)).rule? start = some rule) :
    start ∈ ["\n", " ", "(", ")", "//"] ∧ ∃ final, rule.ending = endingOf final := by
  have entries : (edited (remarks chain)).rules.entries =
      [("\n", ⟨"\n", .none, none, true, by decide⟩), (" ", ⟨" ", .none, none, true, by decide⟩),
        ("(", ⟨"(", .none, none, false, by decide⟩), (")", ⟨")", .none, none, false, by decide⟩),
        ("//", ⟨"//", .pattern "\n", none, true, by decide⟩)] := rfl
  have member := (Dictionary.lookup_eq_some_iff_mem (edited (remarks chain)).rules.sorted
    start rule).mp found
  rw [entries] at member
  simp only [List.mem_cons, List.not_mem_nil, or_false, Prod.mk.injEq] at member
  rcases member with ⟨rfl, rfl⟩ | ⟨rfl, rfl⟩ | ⟨rfl, rfl⟩ | ⟨rfl, rfl⟩ | ⟨rfl, rfl⟩
  · exact ⟨by simp, none, rfl⟩
  · exact ⟨by simp, none, rfl⟩
  · exact ⟨by simp, none, rfl⟩
  · exact ⟨by simp, none, rfl⟩
  · exact ⟨by simp, some "\n", rfl⟩

/-- The lexer of the example skips blanks: spaces and newlines are rules of their own that give no
tokens. -/
theorem remarks_skipsBlanks (chain : Chain) : (edited (remarks chain)).SkipsBlanks where
  space := ⟨_, rfl, rfl, rfl⟩
  newline := ⟨_, rfl, rfl, rfl⟩
  others start registered := by
    have free : ∀ start ∈ ["\n", " ", "(", ")", "//"], start ≠ " " → start ≠ "\n" →
        ' ' ∉ start.toList ∧ '\n' ∉ start.toList := by
      decide
    obtain ⟨rule, found⟩ := Option.isSome_iff_exists.mp registered
    exact free start (remarks_rule found).1
  endings start rule found := (remarks_rule found).2

/-- A token that is taken for one of a definition, but does not touch the parenthesis before
it, is found again in its place, and so are all others around the comment. -/
theorem remarks_relexed :
    let lexer := edited (remarks [Tagger.exactly "x" .synthetic])
    let tokens := (lexer.lexWith passOn { text := "(( x) // y\n  z)", file := "" }).value
    let page := Page.ofTokens false tokens
    let relexed := (lexer.lexWith passOn { text := page, file := "" }).value
    lexer.SkipsBlanks ∧ (tokens.IsChain fun first second => ¬ SetsApart first second) ∧
      relexed.map Token.appearance = tokens.map Token.appearance := by
  intro lexer tokens page relexed
  have skips : lexer.SkipsBlanks := remarks_skipsBlanks _
  have free : tokens.IsChain fun first second => ¬ SetsApart first second := by
    decide +kernel
  exact ⟨skips, free, (relexed_appearance_iff (remarks [Tagger.exactly "x" .synthetic]) skips
    "(( x) // y\n  z)" "" "").mpr free⟩

/-- A token that is taken for one of a definition and touches the parenthesis before it is
found again one column further on. -/
theorem remarks_relexed_apart :
    (edited (remarks [Tagger.exactly "x" .synthetic])).SkipsBlanks ∧
      let lexer := edited (remarks [Tagger.exactly "x" .synthetic])
      let tokens := (lexer.lexWith passOn { text := "(x", file := "" }).value
      let page := Page.ofTokens false tokens
      let relexed := (lexer.lexWith passOn { text := page, file := "" }).value
      relexed.map Token.appearance ≠ tokens.map Token.appearance :=
  ⟨remarks_skipsBlanks _, by decide +kernel⟩

end Lexer

end Parlance
