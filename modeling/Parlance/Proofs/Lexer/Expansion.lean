import Parlance.Proofs.Lexer.Resumption

/-!
# Definitions put in while a text is cut

A lexer that works through a text once hands on each token as soon as it is cut. It does so at
three places: a run that is pending is handed on before a region, then the region unless it is
filtered, and a run that is still pending at the end of the text. What becomes of a token is up
to the one who takes it, who may keep any state and do with it what they like.

None of this comes back to the lexer. Whatever is done with the tokens, they are the tokens of
the text as they are passed on, in the same order. So putting in definitions is putting in
definitions for the tokens that were passed on: each name is replaced where it stands by the
tokens of its body, which take over the place of the name and are not looked at again.
-/

namespace Parlance

/-- A lexer on its way through a text. -/
structure Scanning (State : Type) where
  /-- The characters of the run that is pending, newest first. -/
  collected : List Char := []
  /-- Where the pending run begins. -/
  begun : Position
  /-- Where the lexer is. -/
  position : Position
  /-- What has been made of the tokens so far. -/
  made : State

/-- A lexer at the start of a source. -/
def Scanning.start {State : Type} (source : Source) (made : State) : Scanning State where
  begun := source.start
  position := source.start
  made := made

namespace Lexer

/-- The lexer with other definitions. -/
abbrev withDefinitions (lexer : Lexer) (definitions : Definitions (List Token)) : Lexer :=
  { lexer with definitions }

variable {State : Type} (take : State → Token → State)

/-- Hand on the pending run, if there is one. -/
def handRun (lexer : Lexer) (file : String) (scanning : Scanning State) : State :=
  if scanning.collected.isEmpty then scanning.made
  else
    let text := String.ofList scanning.collected.reverse
    take scanning.made
      { value := text, tag := lexer.chain.classify text, position := scanning.begun, file }

/-- Hand on a region, unless its rule is filtered. -/
def handRegion (file : String) (made : State) (position : Position) (rule : Rule)
    (region : List Char) : State :=
  if rule.filtered then made
  else take made { value := String.ofList region, tag := .deliminator, position, file }

/-- Work through the rest of a text once, handing on the tokens on the way. -/
def scanWith (lexer : Lexer) (file : String) (scanning : Scanning State) (text : List Char) :
    State :=
  match text with
  | [] => lexer.handRun take file scanning
  | c :: rest =>
    match lexer.matchAt (c :: rest) with
    | none =>
      lexer.scanWith file
        { scanning with
          collected := c :: scanning.collected
          position := scanning.position.step c } rest
    | some rule =>
      let region := (c :: rest).take (rule.regionLength (c :: rest))
      let behind := scanning.position.advance region
      lexer.scanWith file
        { begun := behind
          position := behind
          made := handRegion take file (lexer.handRun take file scanning) scanning.position rule
            region }
        ((c :: rest).drop (rule.regionLength (c :: rest)))
termination_by text.length
decreasing_by
  · simp only [List.length_cons]; omega
  · have advances := rule.regionLength_pos c rest
    simp only [List.length_drop, List.length_cons] at *
    omega

/-- Handing on the pending run is taking its token, if it has one. -/
theorem handRun_eq (lexer : Lexer) (file : String) (scanning : Scanning State) :
    lexer.handRun take file scanning =
      (tokensOf lexer.chain file scanning.begun
        (Segment.flush scanning.collected)).foldl take scanning.made := by
  rw [handRun, Segment.flush]
  split
  · rfl
  · rfl

/-- Handing on a region is taking its token, if it has one. -/
theorem handRegion_eq (chain : Chain) (file : String) (made : State) (position : Position)
    (rule : Rule) (region : List Char) :
    handRegion take file made position rule region =
      (tokensOf chain file position [.region rule region]).foldl take made := by
  cases filtered : rule.filtered <;>
    simp [handRegion, tokensOf, Segment.isKept, Segment.text, Segment.tag, filtered]

/-- Working through a text is taking its tokens one after the other, whatever is done with
them.

Proof: the induction follows the loop. Where the lexer is, is behind the pending run, so the
region that ends the run has the position of the lexer. -/
theorem scanWith_eq (lexer : Lexer) (file : String) (scanning : Scanning State) (text : List Char)
    (placed : scanning.position = scanning.begun.advance scanning.collected.reverse) :
    lexer.scanWith take file scanning text =
      (tokensOf lexer.chain file scanning.begun
        (lexer.segmentsFrom scanning.collected text)).foldl take scanning.made := by
  fun_induction lexer.scanWith take file scanning text with
  | case1 scanning =>
    rw [segmentsFrom]
    exact lexer.handRun_eq take file scanning
  | case2 scanning c rest free inductionHypothesis =>
    have moved : scanning.position.step c =
        scanning.begun.advance (c :: scanning.collected).reverse := by
      rw [List.reverse_cons, Position.advance_append, ← placed]
      rfl
    rw [inductionHypothesis moved, segmentsFrom, free]
  | case3 scanning c rest rule found region behind inductionHypothesis =>
    have ended (collected : List Char) :
        (Segment.flush collected).flatMap Segment.text = collected.reverse := by
      cases collected <;> simp [Segment.flush, Segment.text]
    have cut : lexer.segmentsFrom scanning.collected (c :: rest) =
        Segment.flush scanning.collected ++ ([.region rule region] ++
          lexer.segmentsFrom [] ((c :: rest).drop (rule.regionLength (c :: rest)))) := by
      rw [segmentsFrom, found]
      rfl
    rw [inductionHypothesis rfl, cut, tokensOf_append, List.foldl_append, ← handRun_eq, ended,
      ← placed, tokensOf_append, List.foldl_append, ← handRegion_eq]
    simp [Segment.text, behind]

/-! ## Hooks -/

/-- What a hook makes of a token, behind what was made of the tokens before it. -/
def collect (hook : TokenHook) (made : Reported (List Token)) (token : Token) :
    Reported (List Token) where
  value := made.value ++ (hook token).value
  diagnostics := made.diagnostics ++ (hook token).diagnostics

/-- Tokens handed to a hook one after the other are handed to it all together. -/
theorem foldl_collect (hook : TokenHook) (tokens : List Token) (made : Reported (List Token)) :
    tokens.foldl (collect hook) made =
      { value := made.value ++ (throughHook hook tokens).value
        diagnostics := made.diagnostics ++ (throughHook hook tokens).diagnostics } := by
  induction tokens generalizing made with
  | nil => simp [throughHook]
  | cons token tokens inductionHypothesis =>
    rw [List.foldl_cons, inductionHypothesis]
    simp [collect, throughHook]

/-- The tokens of a text that are passed on are those that are cut. -/
theorem lexWith_passOn (lexer : Lexer) (source : Source) :
    lexer.lexWith passOn source = { value := lexer.scan source } := by
  simp [lexWith, throughHook, passOn]

/-- Definitions play no part in cutting a text. By induction over the text: the rule at each place
is the same, and so is the length of its region. -/
theorem scan_withDefinitions (lexer : Lexer) (definitions : Definitions (List Token))
    (source : Source) : (lexer.withDefinitions definitions).scan source = lexer.scan source := by
  have segments (collected text : List Char) :
      (lexer.withDefinitions definitions).segmentsFrom collected text =
        lexer.segmentsFrom collected text := by
    fun_induction lexer.segmentsFrom collected text with
    | case1 collected => rw [segmentsFrom]
    | case2 collected c rest free inductionHypothesis =>
      have same : (lexer.withDefinitions definitions).matchAt (c :: rest) = none := free
      rw [segmentsFrom, same]
      exact inductionHypothesis
    | case3 collected c rest rule found length inductionHypothesis =>
      have same : (lexer.withDefinitions definitions).matchAt (c :: rest) = some rule := found
      rw [segmentsFrom, same]
      simp only
      rw [inductionHypothesis]
  rw [scan, scan, Lexer.segments, segments]
  rfl

/-- The tokens that stand for a token: the body of the definition that it names, each token of it
at the place of the name, or the token itself. -/
def standingFor (definitions : Definitions (List Token)) (token : Token) : List Token :=
  match definitions.find? token.value with
  | some body => body.map fun piece =>
    { value := piece.value, tag := .synthetic, position := token.position, file := token.file }
  | none => [token]

/-- Expanding a text is putting in for each of its tokens what stands for it. A token stands for its
definition or, without one, for itself. -/
theorem lexWith_expand (lexer : Lexer) (source : Source) :
    lexer.lexWith lexer.expand source =
      { value := (lexer.scan source).flatMap (standingFor lexer.definitions) } := by
  have expanded (token : Token) :
      lexer.expand token = { value := standingFor lexer.definitions token } := by
    rw [expand, standingFor]
    cases lexer.definitions.find? token.value with
    | none => rfl
    | some body => rfl
  simp [lexWith, throughHook, expanded]

/-- Putting in definitions is done in a single pass and does not touch the cutting of the text.
For any definitions, a text has the tokens that are passed on for it without them, and these are
handed on one after the other whatever is done with them. Its expansion has, in the place of
each of these tokens, what stands for it, and nothing is reported. Since what is put in is not
looked up, only the definitions of names that are tokens of the text matter. -/
theorem lexWith_expand_single_pass (lexer : Lexer) (definitions : Definitions (List Token))
    (source : Source) :
    let plain := (lexer.lexWith passOn source).value
    let defining := lexer.withDefinitions definitions
    (∀ (State : Type) (take : State → Token → State) (made : State),
      defining.scanWith take source.file (.start source made) source.text.toList =
        plain.foldl take made) ∧
    (∀ hook, defining.scanWith (collect hook) source.file (.start source { value := [] })
      source.text.toList = defining.lexWith hook source) ∧
    defining.lexWith passOn source = { value := plain } ∧
    defining.lexWith defining.expand source = { value := plain.flatMap (standingFor definitions) } ∧
    ∀ others : Definitions (List Token),
      (∀ token ∈ plain, others.find? token.value = definitions.find? token.value) →
        (lexer.withDefinitions others).lexWith (lexer.withDefinitions others).expand source =
          defining.lexWith defining.expand source := by
  intro plain defining
  have same (definitions : Definitions (List Token)) :
      (lexer.withDefinitions definitions).scan source = plain := by
    rw [scan_withDefinitions]
    simp only [plain, lexWith_passOn]
  have handed (State : Type) (take : State → Token → State) (made : State) :
      defining.scanWith take source.file (.start source made) source.text.toList =
        plain.foldl take made := by
    rw [scanWith_eq take defining source.file _ _ rfl, ← same definitions]
    rfl
  refine ⟨handed, ?_, ?_, ?_, ?_⟩
  · intro hook
    rw [handed, foldl_collect, lexWith, same definitions]
    rfl
  · rw [lexWith_passOn, same definitions]
  · rw [lexWith_expand, same definitions]
  · intro others agree
    have sameBodies : plain.map (standingFor others) = plain.map (standingFor definitions) := by
      apply List.map_congr_left
      intro token member
      rw [standingFor, standingFor, agree token member]
    rw [lexWith_expand, lexWith_expand, same definitions, same others, List.flatMap_def,
      List.flatMap_def, sameBodies]

/-- Blanks are dropped and semicolons are tokens. -/
def listing : Lexer := edited [.deliminate " " .none, .filtered " " true, .deliminate ";" .none]

/-- A name in whose body it stands itself, and a name for nothing. -/
def selfNaming : Definitions (List Token) :=
  .ofList [("all", [.bare "all" .symbol, .bare "of" .symbol]), ("none", [])]

/-- A name is put in once where it stands, also if its body names it. That a token of the body
is defined too makes no difference, since the text does not name it. -/
theorem selfNaming_put_in :
    let source : Source := { text := "all; none it", file := "t", start := ⟨3, 4, 10⟩ }
    let plain := (listing.lexWith passOn source).value
    let defining := listing.withDefinitions selfNaming
    let more := selfNaming.insert "of" [.bare "in" .symbol]
    plain.map (·.value) = ["all", ";", "none", "it"] ∧
      (∀ token ∈ plain, more.find? token.value = selfNaming.find? token.value) ∧
      (defining.lexWith defining.expand source).value.map
          (fun token => (token.value, token.tag, token.position.column)) =
        [("all", .synthetic, 4), ("of", .synthetic, 4), (";", .deliminator, 7),
          ("it", .symbol, 14)] ∧
      (listing.withDefinitions more).lexWith (listing.withDefinitions more).expand source =
        defining.lexWith defining.expand source := by
  intro source plain defining more
  have agree : ∀ token ∈ plain, more.find? token.value = selfNaming.find? token.value := by
    decide +kernel
  obtain ⟨_, _, _, _, unread⟩ := listing.lexWith_expand_single_pass selfNaming source
  exact ⟨by decide +kernel, agree, by decide +kernel, unread more agree⟩

end Lexer

end Parlance
