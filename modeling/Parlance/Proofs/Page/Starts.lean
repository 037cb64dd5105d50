import Parlance.Proofs.Page.Spacing

/-!
# Where tokens start on a page

The page of a text's tokens, names being replaced by their definitions, has every token on its own
line and at its own column or behind it. A token that stands for itself is behind its column only
where a synthetic token is before it on the same line.

The reason is how the page and the text keep together. No token of a definition has a newline in it,
so the page is never below the line that is read; and it is past the column that is read only on a
line with a synthetic token. This holds at every token, those in the middle of a definition
included.
-/

namespace Parlance

namespace Page

/-- The padding of a token leads to its column or behind it. Spaces lead to it where the page is
before it, and nothing leads back. -/
theorem column_le_padding (place : Position) (token : Token) :
    token.position.column ≤ (place.advance (padding place token)).column := by
  rw [padding, Position.advance_append, ← Position.below, indent]
  split
  · rename_i left
    rw [(Position.advance_spaces _ _).2]
    omega
  · rename_i passed
    apply Nat.le_trans (Nat.not_lt.mp passed)
    split
    · rw [← List.replicate_one, (Position.advance_spaces _ _).2]
      exact Nat.le_add_right _ _
    · exact Nat.le_refl _

/-- A page that keeps behind a place is past it only where a synthetic token is on its line. -/
theorem Trails.notAfter {tokens : List Token} {position : Position}
    (trails : Trails tokens position)
    (free : ∀ token ∈ tokens, token.tag = .synthetic → token.position.line ≠ position.line) :
    (behind tokens).NotAfter position := by
  rcases trails.column with notAfter | ⟨token, member, synthetic, line⟩
  · exact notAfter
  · have elsewhere := free token member synthetic
    have above := trails.line
    exact .inl (by omega)

/-- The tokens of a page, each with the padding that is written before it. -/
def padded (place : Position) : List Token → List (List Char × Token)
  | [] => []
  | token :: tokens =>
    (padding place token, token) ::
      padded (place.advance (padding place token ++ token.value.toList)) tokens

/-- What is written for a token: its padding and its text. -/
def written (piece : List Char × Token) : List Char := piece.1 ++ piece.2.value.toList

/-- The pieces of a page have its tokens, in their order. -/
theorem map_padded (place : Position) (tokens : List Token) :
    (padded place tokens).map Prod.snd = tokens := by
  induction tokens generalizing place with
  | nil => rfl
  | cons token tokens inductionHypothesis => rw [padded, List.map_cons, inductionHypothesis]

/-- The pieces of a page, written one behind the other, are its text. -/
theorem flatMap_padded (place : Position) (tokens : List Token) :
    (padded place tokens).flatMap written = textOf place tokens := by
  induction tokens generalizing place with
  | nil => rfl
  | cons token tokens inductionHypothesis =>
    rw [padded, List.flatMap_cons, inductionHypothesis]
    rfl

/-- What is written before a token is what the tokens before it make of the page, and its padding is
what leads to it from there. -/
theorem padded_split {place : Position} {tokens : List Token}
    {earlier later : List (List Char × Token)} {spacing : List Char} {token : Token}
    (split : padded place tokens = earlier ++ (spacing, token) :: later) :
    earlier.flatMap written = textOf place (earlier.map Prod.snd) ∧
      spacing = padding (place.advance (textOf place (earlier.map Prod.snd))) token := by
  induction earlier generalizing place tokens with
  | nil =>
    cases tokens with
    | nil => cases split
    | cons first tokens =>
      obtain ⟨same, _⟩ := List.cons.inj split
      obtain ⟨rfl, rfl⟩ := Prod.mk.inj same
      exact ⟨rfl, rfl⟩
  | cons piece earlier inductionHypothesis =>
    cases tokens with
    | nil => cases split
    | cons first tokens =>
      obtain ⟨rfl, others⟩ := List.cons.inj split
      obtain ⟨text, padding⟩ := inductionHypothesis others
      rw [List.flatMap_cons, text, padding, List.map_cons, textOf]
      refine ⟨rfl, ?_⟩
      exact congrArg (Page.padding · token) (Position.advance_append _ _ _).symm

/-- The place where the text of a token starts, behind the pieces before it and its padding. -/
def startOf (earlier : List (List Char × Token)) (spacing : List Char) : Position :=
  ({} : Position).advance (earlier.flatMap written ++ spacing)

/-- There are only blanks between the tokens. Each of them starts on its own line and at its own
column or behind it. It starts at its column when it stands for itself and no synthetic token is
before it on its line. -/
structure KeepsLayout (pieces : List (List Char × Token)) : Prop where
  blank : ∀ piece ∈ pieces, ∀ c ∈ piece.1, Lexer.Blank c
  onLine : ∀ earlier spacing token later, pieces = earlier ++ (spacing, token) :: later →
    (startOf earlier spacing).line = token.position.line
  notBefore : ∀ earlier spacing token later, pieces = earlier ++ (spacing, token) :: later →
    token.position.column ≤ (startOf earlier spacing).column
  inPlace : ∀ earlier spacing token later, pieces = earlier ++ (spacing, token) :: later →
    token.tag ≠ .synthetic →
    (∀ other ∈ earlier.map Prod.snd, other.tag = .synthetic →
      other.position.line ≠ token.position.line) →
    (startOf earlier spacing).column = token.position.column

/-- Padding keeps the layout of tokens if the page keeps behind each of them. Each of the demands
on the layout is one on the padding in front of a token, which is put where the tokens before it
end. -/
theorem keepsLayout_padded {tokens : List Token}
    (trails : ∀ earlier token later, tokens = earlier ++ token :: later →
      Trails earlier token.position) : KeepsLayout (padded {} tokens) := by
  have starts {earlier : List (List Char × Token)} {spacing : List Char} {token : Token}
      {later : List (List Char × Token)}
      (split : padded {} tokens = earlier ++ (spacing, token) :: later) :
      startOf earlier spacing = (behind (earlier.map Prod.snd)).advance
        (padding (behind (earlier.map Prod.snd)) token) ∧
      Trails (earlier.map Prod.snd) token.position := by
    obtain ⟨before, rfl⟩ := padded_split split
    have order := map_padded {} tokens
    rw [split, List.map_append, List.map_cons] at order
    refine ⟨?_, trails _ _ _ order.symm⟩
    rw [startOf, before, Position.advance_append, behind, ofTokens_eq]
  constructor
  · intro piece member
    obtain ⟨earlier, later, split⟩ := List.append_of_mem member
    rw [(padded_split split).2]
    exact padding_blank _ _
  · intro earlier spacing token later split
    obtain ⟨start, behind⟩ := starts split
    rw [start]
    exact padding_line behind.line
  · intro earlier spacing token later split
    rw [(starts split).1]
    exact column_le_padding _ token
  · intro earlier spacing token later split own free
    obtain ⟨start, behind⟩ := starts split
    rw [start]
    exact (padding_reaches (behind.notAfter free) fun setOff => own setOff.1).column

end Page

namespace Lexer

open Page

variable {lexer : Lexer} (oneLined : lexer.OneLined) {tokens : List Token} {position : Position}

include oneLined

/-- The page keeps behind the text at every token of a segment: what was put in before the token is
a part of the same definition, or nothing. -/
theorem trails_within (trails : Trails tokens position) (file : String) {segment : Segment}
    {earlier later : List Token} {token : Token}
    (split : lexer.expansionOf file position [segment] = earlier ++ token :: later) :
    Trails (tokens ++ earlier) token.position := by
  cases kept : segment.isKept with
  | false =>
    rw [lexer.expansionOf_filtered file position kept] at split
    simp at split
  | true =>
    rw [lexer.expansionOf_kept file position kept, expand] at split
    cases found : lexer.definitions.find? (tokenAt lexer.chain file position segment).value with
    | none =>
      simp only [found] at split
      rcases List.append_eq_cons_iff.mp split.symm with ⟨rfl, same⟩ | ⟨_, rfl, others⟩
      · rw [(List.cons.inj same).1, List.append_nil]
        exact trails
      · simp at others
    | some body =>
      simp only [found] at split
      have here : ∀ other ∈ earlier ++ token :: later,
          other.tag = .synthetic ∧ other.position = position := by
        intro other member
        rw [← split] at member
        obtain ⟨word, _, rfl⟩ := List.mem_map.mp member
        exact ⟨rfl, rfl⟩
      rw [(here token (by simp)).2]
      apply trails.made
      · intro other member
        have among : other ∈ earlier ++ token :: later := List.mem_append_left _ member
        rw [← split] at among
        obtain ⟨word, isWord, rfl⟩ := List.mem_map.mp among
        exact oneLined _ _ found word isWord
      · intro other member
        exact here other (List.mem_append_left _ member)

/-- The page keeps behind the text at every token of all segments.

Proof: the induction is on the segments. The token comes from the first one, or it is one of those
behind it, and then the page kept behind the text over the first one. -/
theorem trails_at (trails : Trails tokens position) (file : String) (segments : List Segment)
    {earlier later : List Token} {token : Token}
    (split : lexer.expansionOf file position segments = earlier ++ token :: later) :
    Trails (tokens ++ earlier) token.position := by
  induction segments generalizing tokens position earlier with
  | nil => simp [expansionOf, throughHook, tokensOf] at split
  | cons segment segments inductionHypothesis =>
    have further := trails_segment oneLined trails file segment
    have divided := lexer.expansionOf_append file position [segment] segments
    rw [List.singleton_append, split, List.flatMap_singleton] at divided
    rcases List.append_eq_append_iff.mp divided with ⟨first, made, rest⟩ | ⟨between, rfl, rest⟩
    · cases first with
      | nil =>
        rw [List.append_nil] at made
        have next : lexer.expansionOf file (position.advance segment.text) segments =
            [] ++ token :: later := rest.symm
        have behind := inductionHypothesis further next
        rwa [List.append_nil, made] at behind
      | cons same others =>
        obtain ⟨rfl, _⟩ := List.cons.inj rest
        exact trails_within oneLined trails file made
    · have behind := inductionHypothesis further rest
      rwa [List.append_assoc] at behind

omit oneLined

/-- The page of a text, names being replaced by their definitions, is made of the text of its tokens
in their order, with blanks before each of them that keep the layout. -/
theorem lex_keeps_layout (lexer : Lexer) (oneLined : lexer.OneLined) (text file : String)
    (offset : Nat) :
    ∃ pieces : List (List Char × Token),
      pieces.map Prod.snd =
        (lexer.lexWith lexer.expand { text, file, start := { offset } }).value ∧
      (ofTokens false (pieces.map Prod.snd)).toList = pieces.flatMap written ∧
      KeepsLayout pieces := by
  have begun : Trails [] { offset } := ⟨Nat.le_refl _, .inl (.inr ⟨rfl, Nat.le_refl _⟩)⟩
  have tokens := map_padded {} (lexer.expansionOf file { offset } (lexer.segments text.toList))
  refine ⟨padded {} (lexer.expansionOf file { offset } (lexer.segments text.toList)),
    tokens, ?_, ?_⟩
  · rw [tokens, ofTokens_eq, flatMap_padded]
  · apply keepsLayout_padded
    intro earlier token later split
    exact trails_at oneLined begun file _ split

/-- Blanks and newlines, quotations over several lines, and a name for three words. -/
def quoting : Lexer :=
  edited [.deliminate " " .none, .filtered " " true, .deliminate "\n" .none, .filtered "\n" true,
    .deliminate "'" (.pattern "'"),
    .defined (.ofList [("M", [.bare "abc" .symbol, .bare "+" .symbol, .bare "d" .symbol])])]

/-- The words that are put in reach beyond the columns of the tokens behind them, on the line of the
name and behind a quotation that begins in its place on another line and ends on a third. -/
theorem quoting_keeps_layout :
    quoting.OneLined ∧
      ofTokens false (quoting.lex "x M y\n 'p\nq' M z" "") = "x abc + dy\n 'p\nq' abc + dz" ∧
      ∃ pieces : List (List Char × Token),
        pieces.map Prod.snd = quoting.lex "x M y\n 'p\nq' M z" "" ∧
        (ofTokens false (pieces.map Prod.snd)).toList = pieces.flatMap written ∧
        KeepsLayout pieces := by
  have oneLined : quoting.OneLined := by
    intro name body found
    have definitions : quoting.definitions = Dictionary.empty.insert "M"
        [.bare "abc" .symbol, .bare "+" .symbol, .bare "d" .symbol] := rfl
    rw [definitions, Dictionary.find?_insert] at found
    split at found
    · cases found
      decide
    · cases found
  exact ⟨oneLined, by decide +kernel, quoting.lex_keeps_layout oneLined _ "" 0⟩

end Lexer

end Parlance
