import Parlance.Lexer.Scan
import Parlance.Proofs.Dictionary

/-!
# Registered rules and the one that applies

Rules are kept under their start patterns, and no edit of a lexer separates a rule from
its pattern. The rule that applies at a place is therefore determined by the patterns
alone: it is the registered rule whose pattern is the longest of those that the text
begins with there, and no other rule has that pattern.

The region of a rule that applies never reaches beyond the text, however its end is
found.
-/

namespace Parlance.Lexer

/-! ## Registration -/

/-- What can be done to a lexer before it is used. -/
inductive Edit where
  /-- Add a rule. -/
  | deliminate (start : String) (ending : Ending)
  /-- Remove a rule. -/
  | undeliminate (start : String)
  /-- Give a rule an escape character. -/
  | escapedBy (start : String) (escape : Char)
  /-- Set whether the regions of a rule give tokens. -/
  | filtered (start : String) (filtered : Bool)
  /-- Choose the chain that tags runs. -/
  | tagged (chain : Chain)
  /-- Choose the definitions of names. -/
  | defined (definitions : Definitions (List Token))

/-- The lexer after an edit. An edit that is refused changes nothing. -/
def edit (lexer : Lexer) : Edit → Lexer
  | .deliminate start ending =>
    match lexer.deliminate start ending with
    | .ok next => next
    | .error _ => lexer
  | .undeliminate start =>
    match lexer.undeliminate start with
    | .ok (_, next) => next
    | .error _ => lexer
  | .escapedBy start escape =>
    lexer.changeRule start fun rule => { rule with escape := some escape }
  | .filtered start filtered => lexer.changeRule start fun rule => { rule with filtered }
  | .tagged chain => { lexer with chain }
  | .defined definitions => { lexer with definitions }

/-- A new lexer after edits. -/
def edited (edits : List Edit) : Lexer := edits.foldl edit {}

/-- Every rule is kept under its own start pattern. -/
def Keyed (lexer : Lexer) : Prop :=
  ∀ start rule, lexer.rule? start = some rule → rule.start = start

/-- Storing a rule under its own pattern leaves every rule under its own. -/
theorem Keyed.insert {lexer : Lexer} (keyed : lexer.Keyed) {start : String} {rule : Rule}
    (own : rule.start = start) : Keyed { lexer with rules := lexer.rules.insert start rule } := by
  intro other held
  simp only [rule?, Dictionary.find?_insert]
  split
  · rename_i same
    rintro ⟨⟩
    exact own.trans same.symm
  · exact keyed other held

/-- A change that leaves the start pattern alone leaves every rule under its own. -/
theorem Keyed.changeRule {lexer : Lexer} (keyed : lexer.Keyed) (start : String)
    (change : Rule → Rule) (kept : ∀ rule, (change rule).start = rule.start) :
    (lexer.changeRule start change).Keyed := by
  unfold Lexer.changeRule
  split
  · exact keyed
  · rename_i rule found
    exact keyed.insert ((kept rule).trans (keyed start rule found))

/-- An edit leaves every rule under its own start pattern. A rule is registered under its own
pattern, and changes of a rule leave its pattern alone. -/
theorem Keyed.edit {lexer : Lexer} (keyed : lexer.Keyed) (edit : Edit) :
    (lexer.edit edit).Keyed := by
  cases edit with
  | deliminate start ending =>
    simp only [Lexer.edit, Lexer.deliminate]
    split
    · rename_i next added
      split at added
      · cases added
      · split at added
        · cases added
        · cases added
          exact keyed.insert rfl
    · exact keyed
  | undeliminate start =>
    simp only [Lexer.edit, Lexer.undeliminate]
    split
    · rename_i rule next removed
      split at removed
      · cases removed
      · split at removed
        · cases removed
        · cases removed
          intro other held
          simp only [rule?, Dictionary.find?_erase]
          split
          · simp
          · exact keyed other held
    · exact keyed
  | escapedBy start escape => exact keyed.changeRule start _ (fun _ => rfl)
  | filtered start filtered => exact keyed.changeRule start _ (fun _ => rfl)
  | tagged chain => exact keyed
  | defined definitions => exact keyed

/-- However a lexer was edited, every rule is kept under its own start pattern. -/
theorem keyed_edited (edits : List Edit) : (edited edits).Keyed := by
  have kept (lexer : Lexer) (keyed : lexer.Keyed) : (edits.foldl Lexer.edit lexer).Keyed := by
    induction edits generalizing lexer with
    | nil => exact keyed
    | cons edit edits inductionHypothesis => exact inductionHypothesis _ (keyed.edit edit)
  exact kept {} (by simp [Keyed, rule?, Dictionary.find?, Dictionary.empty])

/-! ## The rule that applies -/

/-- A pattern under which a rule is registered begins the text. -/
def Begins (lexer : Lexer) (start : String) (text : List Char) : Prop :=
  (lexer.rule? start).isSome ∧ start.toList <+: text

/-- The rule applies at the start of the text: it is registered, its pattern begins
the text, and no registered pattern that begins the text is longer. -/
structure Applies (lexer : Lexer) (rule : Rule) (text : List Char) : Prop where
  registered : lexer.rule? rule.start = some rule
  begins : rule.start.toList <+: text
  longest : ∀ start, lexer.Begins start text → start.length ≤ rule.start.length

/-- Two patterns that begin one text and are equally long are the same. -/
theorem start_eq {first second : String} {text : List Char} (begins : first.toList <+: text)
    (alsoBegins : second.toList <+: text) (length : first.length = second.length) :
    first = second := by
  have characters : first.toList.length = second.toList.length := by
    rw [String.length_toList, String.length_toList, length]
  have same : first.toList <+: second.toList :=
    List.prefix_of_prefix_length_le begins alsoBegins (Nat.le_of_eq characters)
  exact String.toList_injective (same.eq_of_length characters)

/-- At most one rule applies: a longest pattern is determined by the text, and the
rule by its pattern. -/
theorem Applies.unique {lexer : Lexer} {rule other : Rule} {text : List Char}
    (applies : lexer.Applies rule text) (alsoApplies : lexer.Applies other text) :
    rule = other := by
  have shorter := alsoApplies.longest rule.start ⟨by simp [applies.registered], applies.begins⟩
  have longer := applies.longest other.start
    ⟨by simp [alsoApplies.registered], alsoApplies.begins⟩
  have same := start_eq applies.begins alsoApplies.begins (by omega)
  have registered := applies.registered
  rw [same, alsoApplies.registered] at registered
  exact (Option.some.inj registered).symm

/-- The rule chosen among several is one of them, its pattern begins the text, and no
longer pattern among them does; none is chosen exactly when none of the patterns
begins the text. -/
theorem longestOf_spec (text : List Char) (rules : List Rule) :
    match longestOf text rules with
    | none => ∀ rule ∈ rules, ¬ rule.start.toList <+: text
    | some chosen => chosen ∈ rules ∧ chosen.start.toList <+: text ∧
        ∀ rule ∈ rules, rule.start.toList <+: text → rule.start.length ≤ chosen.start.length := by
  induction rules with
  | nil => simp [longestOf]
  | cons rule rules inductionHypothesis =>
    simp only [longestOf, List.isPrefixOf_iff_prefix]
    by_cases begins : rule.start.toList <+: text
    · simp only [begins, if_true]
      cases best : longestOf text rules with
      | none =>
        rw [best] at inductionHypothesis
        exact ⟨List.mem_cons_self, begins, List.forall_mem_cons.mpr ⟨fun _ => Nat.le_refl _,
          fun other member otherBegins => absurd otherBegins (inductionHypothesis other member)⟩⟩
      | some chosen =>
        rw [best] at inductionHypothesis
        obtain ⟨inRules, chosenBegins, longest⟩ := inductionHypothesis
        by_cases shorter : rule.start.length < chosen.start.length
        · simp only [shorter, if_true]
          exact ⟨List.mem_cons_of_mem _ inRules, chosenBegins,
            List.forall_mem_cons.mpr ⟨fun _ => Nat.le_of_lt shorter, longest⟩⟩
        · simp only [shorter, if_false]
          exact ⟨List.mem_cons_self, begins, List.forall_mem_cons.mpr ⟨fun _ => Nat.le_refl _,
            fun other member otherBegins =>
              Nat.le_trans (longest other member otherBegins) (Nat.not_lt.mp shorter)⟩⟩
    · simp only [begins, if_false]
      cases best : longestOf text rules with
      | none =>
        rw [best] at inductionHypothesis
        exact List.forall_mem_cons.mpr ⟨begins, inductionHypothesis⟩
      | some chosen =>
        rw [best] at inductionHypothesis
        obtain ⟨inRules, chosenBegins, longest⟩ := inductionHypothesis
        exact ⟨List.mem_cons_of_mem _ inRules, chosenBegins,
          List.forall_mem_cons.mpr ⟨fun isPrefix => absurd isPrefix begins, longest⟩⟩

/-- The rules among which one is chosen are the registered ones. -/
theorem mem_values_iff {lexer : Lexer} (keyed : lexer.Keyed) (rule : Rule) :
    rule ∈ lexer.rules.values ↔ lexer.rule? rule.start = some rule := by
  rw [Dictionary.mem_values_iff]
  constructor
  · rintro ⟨start, found⟩
    rw [keyed start rule found]
    exact found
  · intro found
    exact ⟨rule.start, found⟩

/-- What is found applies, and where nothing is found no registered pattern begins the
text. -/
theorem matchAt_spec {lexer : Lexer} (keyed : lexer.Keyed) (text : List Char) :
    match lexer.matchAt text with
    | none => ∀ start, ¬ lexer.Begins start text
    | some rule => lexer.Applies rule text := by
  have chosen := longestOf_spec text lexer.rules.values
  have among {start : String} (registered : (lexer.rule? start).isSome) :
      ∃ rule ∈ lexer.rules.values, rule.start = start := by
    obtain ⟨rule, found⟩ := Option.isSome_iff_exists.mp registered
    have own := keyed start rule found
    exact ⟨rule, (mem_values_iff keyed rule).mpr (own ▸ found), own⟩
  unfold matchAt
  cases best : longestOf text lexer.rules.values with
  | none =>
    rw [best] at chosen
    rintro start ⟨registered, begins⟩
    obtain ⟨rule, member, rfl⟩ := among registered
    exact chosen rule member begins
  | some rule =>
    rw [best] at chosen
    obtain ⟨member, begins, longest⟩ := chosen
    refine ⟨(mem_values_iff keyed rule).mp member, begins, ?_⟩
    rintro start ⟨registered, alsoBegins⟩
    obtain ⟨other, otherMember, rfl⟩ := among registered
    exact longest other otherMember alsoBegins

/-- No rule is found exactly when no registered pattern begins the text. -/
theorem matchAt_eq_none_iff {lexer : Lexer} (keyed : lexer.Keyed) (text : List Char) :
    lexer.matchAt text = none ↔ ∀ start, ¬ lexer.Begins start text := by
  have spec := matchAt_spec keyed text
  cases found : lexer.matchAt text with
  | none => simpa [found] using spec
  | some rule =>
    rw [found] at spec
    have begins : lexer.Begins rule.start text := ⟨by simp [spec.registered], spec.begins⟩
    simpa using ⟨rule.start, begins⟩

/-- The rule that is found is the one that applies. There is just one that applies, as no two
registered patterns of one length begin the same text. -/
theorem matchAt_eq_some_iff {lexer : Lexer} (keyed : lexer.Keyed) (text : List Char)
    (rule : Rule) : lexer.matchAt text = some rule ↔ lexer.Applies rule text := by
  have spec := matchAt_spec keyed text
  constructor
  · intro found
    simpa [found] using spec
  · intro applies
    cases found : lexer.matchAt text with
    | none =>
      rw [found] at spec
      exact absurd ⟨by simp [applies.registered], applies.begins⟩ (spec rule.start)
    | some other =>
      rw [found] at spec
      rw [spec.unique applies]

end Parlance.Lexer

/-! ## Regions stay inside the text -/

namespace Parlance

/-- A number of bytes is reached inside the text, or by the whole of it. By induction over the text,
of which one character is taken for each step. -/
theorem Text.covering_le_length (bytes : Nat) (text : List Char) :
    Text.covering bytes text ≤ text.length := by
  induction text generalizing bytes with
  | nil => simp [Text.covering]
  | cons c rest inductionHypothesis =>
    simp only [Text.covering, List.length_cons]
    split
    · omega
    · have inside := inductionHypothesis (bytes - c.utf8Size)
      omega

namespace Rule

/-- An end pattern is found inside the text, or the text runs out. By induction over the search, by
the character at hand and whether it escapes the next one. -/
theorem throughPattern_le_length (escape : Option Char) (final text : List Char) :
    throughPattern escape final text ≤ text.length := by
  fun_induction throughPattern escape final text with
  | case1 => simp
  | case2 => simp
  | case3 c _ found => exact (List.isPrefixOf_iff_prefix.mp found).length_le
  | case4 => simp
  | case5 c next rest _ inductionHypothesis =>
    simp only [List.length_cons]
    omega
  | case6 c next rest _ found => exact (List.isPrefixOf_iff_prefix.mp found).length_le
  | case7 c next rest _ _ inductionHypothesis =>
    simp only [List.length_cons] at *
    omega

/-- The region of a rule whose pattern begins the text ends inside the text. The cases are the three
kinds of endings. -/
theorem regionLength_le_length (rule : Rule) {text : List Char}
    (begins : rule.start.toList <+: text) : rule.regionLength text ≤ text.length := by
  have fits := begins.length_le
  simp only [regionLength]
  split
  · exact fits
  · rename_i final _
    have inside := throughPattern_le_length rule.escape final.toList
      (text.drop rule.start.toList.length)
    rw [List.length_drop] at inside
    omega
  · exact Text.covering_le_length _ _

end Rule

end Parlance
