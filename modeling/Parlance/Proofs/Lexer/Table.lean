import Mathlib.Data.Finset.Card
import Parlance.Proofs.Lexer.Rules

/-!
# The table of rules

The rules of a lexer form a finite map from start patterns to rules. What is kept under a
pattern is what the edits of that pattern make of it, one after the other, whatever is done to
other patterns in between: registering fills an empty place only, removing empties it, and the
other edits change the rule that is there.

Registering and removing say exactly when they are refused, and a refused edit leaves everything
as it was. The number of rules and the longest pattern are those of the patterns that are
registered at the time, and so is the rule that is found at a place of a text.
-/

namespace Parlance

/-- The bytes of a text are those of its characters. By induction over its characters. -/
theorem Text.byteLength_toList (text : String) :
    Text.byteLength text.toList = text.utf8ByteSize := by
  have characters (list : List Char) :
      Text.byteLength list = (String.ofList list).utf8ByteSize := by
    induction list with
    | nil => simp [Text.byteLength]
    | cons c rest inductionHypothesis =>
      have split : String.ofList (c :: rest) = String.ofList [c] ++ String.ofList rest := by
        rw [← String.ofList_append, List.singleton_append]
      have first : (String.ofList [c]).utf8ByteSize = c.utf8Size := by
        rw [← String.singleton_eq_ofList, String.utf8ByteSize_singleton]
      rw [Text.byteLength, inductionHypothesis, split, String.utf8ByteSize_append, first]
  rw [characters, String.ofList_toList]

/-- Of two texts that begin the same text, the one with fewer bytes begins the other. -/
theorem Text.prefix_of_byteLength_le {first second text : List Char} (begins : first <+: text)
    (alsoBegins : second <+: text) (fewer : Text.byteLength first ≤ Text.byteLength second) :
    first <+: second := by
  rcases List.prefix_or_prefix_of_prefix begins alsoBegins with shorter | longer
  · exact shorter
  · obtain ⟨rest, rfl⟩ := longer
    rw [Text.byteLength_append] at fewer
    have nothing : rest = [] := Text.byteLength_eq_zero_iff.mp (by omega)
    rw [nothing, List.append_nil]

namespace Lexer

/-! ## What edits make of a rule -/

/-- The rule that is registered for a start pattern; there is none for the empty one. -/
def newRule? (start : String) (ending : Ending) : Option Rule :=
  if startNonempty : start.toList = [] then none else some { start, ending, startNonempty }

/-- What an edit makes of the rule held under a key, if there is one. -/
def Edit.onRule (key : String) (held : Option Rule) : Edit → Option Rule
  | .deliminate start ending => if start = key then held.or (newRule? key ending) else held
  | .undeliminate start => if start = key then none else held
  | .escapedBy start escape =>
    if start = key then held.map fun rule => { rule with escape := some escape } else held
  | .filtered start hidden =>
    if start = key then held.map fun rule => { rule with filtered := hidden } else held
  | .tagged _ => held
  | .defined _ => held

/-- What is held under a key after edits of a table without rules. -/
def heldAfter (edits : List Edit) (key : String) : Option Rule :=
  edits.foldl (Edit.onRule key) none

/-- A pattern without characters is the empty one. -/
theorem toList_eq_nil_iff {start : String} : start.toList = [] ↔ start = "" := by
  rw [← String.toList_empty, String.toList_inj]

/-- Every pattern but the empty one gets a rule, which carries the proof that its pattern is not
empty. -/
theorem newRule?_of_ne {start : String} (nonempty : start ≠ "") (ending : Ending) :
    newRule? start ending =
      some { start, ending, startNonempty := mt toList_eq_nil_iff.mp nonempty } :=
  dif_neg (mt toList_eq_nil_iff.mp nonempty)

/-- The empty pattern gets no rule. -/
theorem newRule?_empty (ending : Ending) : newRule? "" ending = none :=
  dif_pos (toList_eq_nil_iff.mpr rfl)

/-- What becomes of an attempt to register a rule: the empty pattern and a pattern in use are
refused, and otherwise the new rule is kept under its pattern and every other one where it was. -/
theorem deliminate_cases (lexer : Lexer) (start : String) (ending : Ending) :
    (start = "" ∧ lexer.deliminate start ending = .error .emptyPattern) ∨
    (start ≠ "" ∧ (lexer.rule? start).isSome ∧
      lexer.deliminate start ending = .error (.duplicateDeliminator start)) ∨
    (start ≠ "" ∧ lexer.rule? start = none ∧
      ∃ next, lexer.deliminate start ending = .ok next ∧
        ∀ key, next.rule? key =
          if start = key then newRule? key ending else lexer.rule? key) := by
  by_cases empty : start = ""
  · refine .inl ⟨empty, ?_⟩
    rw [Lexer.deliminate, dif_pos (toList_eq_nil_iff.mpr empty)]
  · have nonempty : start.toList ≠ [] := mt toList_eq_nil_iff.mp empty
    cases found : lexer.rule? start with
    | some rule =>
      refine .inr (.inl ⟨empty, rfl, ?_⟩)
      have inUse : lexer.rules.contains start := by
        rw [Dictionary.contains, show lexer.rules.find? start = some rule from found]
        rfl
      rw [Lexer.deliminate, dif_neg nonempty, if_pos inUse]
    | none =>
      have unused : ¬ lexer.rules.contains start := by
        rw [Dictionary.contains, show lexer.rules.find? start = none from found]
        simp
      have added := Lexer.deliminate.eq_def lexer start ending
      rw [dif_neg nonempty, if_neg unused] at added
      refine .inr (.inr ⟨empty, rfl, _, added, ?_⟩)
      intro key
      rw [rule?, Dictionary.find?_insert]
      by_cases same : start = key
      · subst same
        rw [if_pos rfl, if_pos rfl, newRule?_of_ne empty]
      · rw [if_neg (Ne.symm same), if_neg same, rule?]

/-- What becomes of an attempt to remove a rule: the empty pattern and a pattern not in use are
refused, and otherwise the rule is given back and every other one kept where it was. -/
theorem undeliminate_cases (lexer : Lexer) (start : String) :
    (start = "" ∧ lexer.undeliminate start = .error .emptyPattern) ∨
    (start ≠ "" ∧ lexer.rule? start = none ∧
      lexer.undeliminate start = .error (.unknownDeliminator start)) ∨
    (start ≠ "" ∧ ∃ rule next, lexer.rule? start = some rule ∧
      lexer.undeliminate start = .ok (rule, next) ∧
        ∀ key, next.rule? key = if start = key then none else lexer.rule? key) := by
  by_cases empty : start = ""
  · refine .inl ⟨empty, ?_⟩
    simp [Lexer.undeliminate, empty]
  · have test : start.isEmpty = false := by simpa using empty
    cases found : lexer.rule? start with
    | none =>
      have missing : lexer.rules.find? start = none := found
      refine .inr (.inl ⟨empty, rfl, ?_⟩)
      simp [Lexer.undeliminate, test, missing]
    | some rule =>
      have present : lexer.rules.find? start = some rule := found
      refine .inr (.inr ⟨empty, rule, { lexer with rules := lexer.rules.erase start }, rfl, ?_, ?_⟩)
      · simp [Lexer.undeliminate, test, present]
      · intro key
        simp only [rule?, Dictionary.find?_erase, eq_comm]

/-- Changing the rule under a pattern changes what is found there, if anything is, and nothing
else. -/
theorem rule?_changeRule (lexer : Lexer) (start : String) (change : Rule → Rule) (key : String) :
    (lexer.changeRule start change).rule? key =
      if start = key then (lexer.rule? key).map change else lexer.rule? key := by
  unfold Lexer.changeRule
  split
  · rename_i missing
    split
    · rename_i same
      subst same
      rw [rule?, missing, Option.map_none]
    · rfl
  · rename_i rule found
    simp only [rule?, Dictionary.find?_insert]
    by_cases same : start = key
    · subst same
      simp [found]
    · rw [if_neg (Ne.symm same), if_neg same]

/-- Nothing is kept under the empty pattern, since no rule has it. -/
theorem Keyed.rule?_empty {lexer : Lexer} (keyed : lexer.Keyed) : lexer.rule? "" = none := by
  rw [Option.eq_none_iff_forall_not_mem]
  intro rule found
  have own := keyed "" rule found
  exact rule.startNonempty (toList_eq_nil_iff.mpr own)

/-- Registering fills the place of its own pattern if that is empty. It is refused for the empty
pattern and for one that is in use, and neither changes what is found. -/
theorem rule?_deliminate (lexer : Lexer) (start : String) (ending : Ending) (key : String) :
    (lexer.edit (.deliminate start ending)).rule? key =
      if start = key then (lexer.rule? key).or (newRule? key ending) else lexer.rule? key := by
  rw [Lexer.edit]
  rcases lexer.deliminate_cases start ending with ⟨rfl, refused⟩ | ⟨_, inUse, refused⟩ |
    ⟨_, unused, next, added, kept⟩
  · by_cases same : "" = key
    · subst same
      simp [refused, newRule?_empty]
    · simp [refused, same]
  · by_cases same : start = key
    · subst same
      simp [refused, Option.or_of_isSome inUse]
    · simp [refused, same]
  · by_cases same : start = key
    · subst same
      simp [added, kept, unused]
    · simp [added, kept, same]

/-- Removing empties the place of its own pattern. It is refused for the empty pattern and for one
that is not in use, where there is nothing to be emptied. -/
theorem rule?_undeliminate {lexer : Lexer} (keyed : lexer.Keyed) (start key : String) :
    (lexer.edit (.undeliminate start)).rule? key =
      if start = key then none else lexer.rule? key := by
  rw [Lexer.edit]
  rcases lexer.undeliminate_cases start with ⟨rfl, refused⟩ | ⟨_, missing, refused⟩ |
    ⟨_, rule, next, _, removed, kept⟩
  · by_cases same : "" = key
    · subst same
      simp [refused, keyed.rule?_empty]
    · simp [refused, same]
  · by_cases same : start = key
    · subst same
      simp [refused, missing]
    · simp [refused, same]
  · rw [removed]
    exact kept key

/-- An edit does to the rule under each key what it does to that rule by itself. -/
theorem rule?_edit {lexer : Lexer} (keyed : lexer.Keyed) (edit : Edit) (key : String) :
    (lexer.edit edit).rule? key = edit.onRule key (lexer.rule? key) := by
  cases edit with
  | deliminate start ending => exact lexer.rule?_deliminate start ending key
  | undeliminate start => exact rule?_undeliminate keyed start key
  | escapedBy start escape => exact lexer.rule?_changeRule start _ key
  | filtered start hidden => exact lexer.rule?_changeRule start _ key
  | tagged chain => rfl
  | defined definitions => rfl

/-- However a lexer is edited, what is kept under a key is what the edits of that key made of
it. -/
theorem rule?_edited (edits : List Edit) (key : String) :
    (edited edits).rule? key = heldAfter edits key := by
  have run (lexer : Lexer) (keyed : lexer.Keyed) :
      (edits.foldl edit lexer).rule? key = edits.foldl (Edit.onRule key) (lexer.rule? key) := by
    induction edits generalizing lexer with
    | nil => rfl
    | cons edit edits inductionHypothesis =>
      rw [List.foldl_cons, List.foldl_cons, inductionHypothesis _ (keyed.edit edit),
        rule?_edit keyed edit key]
  exact run {} (keyed_edited [])

/-! ## How many rules there are, and how long -/

/-- The patterns under which rules are kept. -/
def starts (lexer : Lexer) : Finset String := lexer.rules.keys.toFinset

/-- The patterns of a lexer are those under which it keeps a rule. -/
theorem mem_starts_iff (lexer : Lexer) (start : String) :
    start ∈ lexer.starts ↔ (lexer.rule? start).isSome := by
  rw [starts, List.mem_toFinset, Dictionary.mem_keys_iff, rule?]

/-- The number of rules is that of the patterns, since no pattern has two rules. -/
theorem ruleCount_eq_card (lexer : Lexer) : lexer.ruleCount = lexer.starts.card := by
  rw [starts, List.toFinset_card_of_nodup lexer.rules.nodup_keys, Dictionary.keys,
    List.length_map]
  rfl

/-- A bound on the longest pattern is one on all of them. The longest one is found by going through
all of them, and never gets smaller on the way. -/
theorem longestStart_le_iff (lexer : Lexer) (bound : Nat) :
    lexer.longestStart ≤ bound ↔
      ∀ start, (lexer.rule? start).isSome → start.utf8ByteSize ≤ bound := by
  have bounded (lengths : List Nat) (least : Nat) :
      lengths.foldl max least ≤ bound ↔ least ≤ bound ∧ ∀ length ∈ lengths, length ≤ bound := by
    induction lengths generalizing least with
    | nil => simp
    | cons length lengths inductionHypothesis =>
      rw [List.foldl_cons, inductionHypothesis, List.forall_mem_cons, Nat.max_le, and_assoc]
  rw [longestStart, bounded]
  simp only [Nat.zero_le, true_and, List.forall_mem_map, Dictionary.mem_keys_iff, rule?]

/-- The longest pattern is a registered one, if there are any. A number that no pattern reaches is
no bound that is attained, while the length of the longest pattern is the least bound. -/
theorem longestStart_attained (lexer : Lexer) :
    lexer.longestStart = 0 ∧ (∀ start, lexer.rule? start = none) ∨
      ∃ start, (lexer.rule? start).isSome ∧ start.utf8ByteSize = lexer.longestStart := by
  have within := (lexer.longestStart_le_iff lexer.longestStart).mp (Nat.le_refl _)
  by_cases none : ∀ start, lexer.rule? start = none
  · have nothing : lexer.longestStart ≤ 0 := by
      rw [longestStart_le_iff]
      intro start inUse
      rw [none start] at inUse
      cases inUse
    exact .inl ⟨Nat.le_zero.mp nothing, none⟩
  · right
    by_contra missed
    have shorter (start : String) (inUse : (lexer.rule? start).isSome) :
        start.utf8ByteSize < lexer.longestStart :=
      Nat.lt_of_le_of_ne (within start inUse) fun same => missed ⟨start, inUse, same⟩
    obtain ⟨start, held⟩ := not_forall.mp none
    have positive := shorter start (Option.isSome_iff_ne_none.mpr held)
    have smaller : lexer.longestStart ≤ lexer.longestStart - 1 := by
      rw [longestStart_le_iff]
      intro other inUse
      have below := shorter other inUse
      omega
    omega

/-! ## The rule that is found -/

/-- The rule that is found is the one kept under the longest pattern that begins the text, in
bytes as in characters. -/
theorem matchAt_eq_some_iff_bytes {lexer : Lexer} (keyed : lexer.Keyed) (text : List Char)
    (rule : Rule) :
    lexer.matchAt text = some rule ↔
      lexer.rule? rule.start = some rule ∧ rule.start.toList <+: text ∧
        ∀ start, (lexer.rule? start).isSome → start.toList <+: text →
          start.utf8ByteSize ≤ rule.start.utf8ByteSize := by
  rw [matchAt_eq_some_iff keyed]
  have compared {start : String} (begins : rule.start.toList <+: text)
      (alsoBegins : start.toList <+: text) :
      start.length ≤ rule.start.length ↔ start.utf8ByteSize ≤ rule.start.utf8ByteSize := by
    rw [← Text.byteLength_toList, ← Text.byteLength_toList, ← String.length_toList,
      ← String.length_toList]
    constructor
    · intro shorter
      obtain ⟨rest, same⟩ := List.prefix_of_prefix_length_le alsoBegins begins shorter
      rw [← same, Text.byteLength_append]
      exact Nat.le_add_right _ _
    · intro fewer
      exact (Text.prefix_of_byteLength_le alsoBegins begins fewer).length_le
  constructor
  · rintro ⟨registered, begins, longest⟩
    refine ⟨registered, begins, fun start found alsoBegins => ?_⟩
    exact (compared begins alsoBegins).mp (longest start ⟨found, alsoBegins⟩)
  · rintro ⟨registered, begins, longest⟩
    refine ⟨registered, begins, fun start found => ?_⟩
    exact (compared begins found.2).mpr (longest start found.1 found.2)

/-! ## Registering and removing -/

/-- A rule is registered exactly when its pattern is neither empty nor in use. -/
theorem deliminate_eq_ok_iff (lexer : Lexer) (start : String) (ending : Ending) :
    lexer.deliminate start ending = .ok (lexer.edit (.deliminate start ending)) ↔
      start ≠ "" ∧ lexer.rule? start = none := by
  rw [edit]
  rcases lexer.deliminate_cases start ending with ⟨rfl, refused⟩ | ⟨_, inUse, refused⟩ |
    ⟨nonempty, unused, next, added, _⟩
  · simp [refused]
  · simp [refused, Option.isSome_iff_ne_none.mp inUse]
  · simp [added, nonempty, unused]

/-- An empty pattern, and a pattern in use, is the reason why a rule is not registered. These are
the only two reasons, and they exclude each other, since nothing is kept under the empty pattern. -/
theorem deliminate_eq_error_iff {lexer : Lexer} (keyed : lexer.Keyed) (start : String)
    (ending : Ending) :
    (lexer.deliminate start ending = .error .emptyPattern ↔ start = "") ∧
      (lexer.deliminate start ending = .error (.duplicateDeliminator start) ↔
        (lexer.rule? start).isSome) := by
  rcases lexer.deliminate_cases start ending with ⟨rfl, refused⟩ | ⟨nonempty, inUse, refused⟩ |
    ⟨nonempty, unused, next, added, _⟩
  · simp [refused, keyed.rule?_empty]
  · simp [refused, nonempty, inUse]
  · simp [added, nonempty, unused]

/-- A rule is removed exactly when it is registered. It is given back as it was kept, and the lexer
is what the edit makes of it. -/
theorem undeliminate_eq_ok_iff {lexer : Lexer} (keyed : lexer.Keyed) (start : String)
    (rule : Rule) :
    lexer.undeliminate start = .ok (rule, lexer.edit (.undeliminate start)) ↔
      lexer.rule? start = some rule := by
  rw [edit]
  rcases lexer.undeliminate_cases start with ⟨rfl, refused⟩ | ⟨_, missing, refused⟩ |
    ⟨_, held, next, found, removed, _⟩
  · simp [refused, keyed.rule?_empty]
  · simp [refused, missing]
  · simp [removed, found]

/-- An empty pattern, and a pattern not in use, is the reason why no rule is removed. -/
theorem undeliminate_eq_error_iff (lexer : Lexer) (start : String) :
    (lexer.undeliminate start = .error .emptyPattern ↔ start = "") ∧
      (lexer.undeliminate start = .error (.unknownDeliminator start) ↔
        start ≠ "" ∧ lexer.rule? start = none) := by
  rcases lexer.undeliminate_cases start with ⟨rfl, refused⟩ | ⟨nonempty, missing, refused⟩ |
    ⟨nonempty, held, next, found, removed, _⟩
  · simp [refused]
  · simp [refused, nonempty, missing]
  · simp [removed, nonempty, found]

/-- The lexer keeps its rules as a map does that holds `held`. -/
structure IsTable (lexer : Lexer) (held : String → Option Rule) : Prop where
  /-- A rule is looked up under its start pattern. -/
  rule : ∀ start, lexer.rule? start = held start
  /-- Every rule has the pattern that it is held under, so nothing is held under the empty
  one. -/
  own : ∀ start rule, held start = some rule → rule.start = start ∧ start ≠ ""
  /-- A rule is registered exactly when its pattern is neither empty nor in use. -/
  registers : ∀ start ending,
    lexer.deliminate start ending = .ok (lexer.edit (.deliminate start ending)) ↔
      start ≠ "" ∧ held start = none
  /-- The reason is given when it is not. -/
  refuses : ∀ start ending,
    (lexer.deliminate start ending = .error .emptyPattern ↔ start = "") ∧
      (lexer.deliminate start ending = .error (.duplicateDeliminator start) ↔
        (held start).isSome)
  /-- A rule is removed exactly when there is one, and it is given back. -/
  removes : ∀ start rule,
    lexer.undeliminate start = .ok (rule, lexer.edit (.undeliminate start)) ↔
      held start = some rule
  /-- The reason is given when there is none. -/
  misses : ∀ start,
    (lexer.undeliminate start = .error .emptyPattern ↔ start = "") ∧
      (lexer.undeliminate start = .error (.unknownDeliminator start) ↔
        start ≠ "" ∧ held start = none)
  /-- There are as many rules as patterns in use. -/
  counts : ∃ starts : Finset String, (∀ start, start ∈ starts ↔ (held start).isSome) ∧
    lexer.ruleCount = starts.card
  /-- No pattern is longer than the longest one, in bytes. -/
  bounds : ∀ start, (held start).isSome → start.utf8ByteSize ≤ lexer.longestStart
  /-- The longest one is a pattern in use, if there are any. -/
  attains : lexer.longestStart = 0 ∧ (∀ start, held start = none) ∨
    ∃ start, (held start).isSome ∧ start.utf8ByteSize = lexer.longestStart
  /-- The rule with the longest pattern that begins a text is found. -/
  finds : ∀ text rule, lexer.matchAt text = some rule ↔
    held rule.start = some rule ∧ rule.start.toList <+: text ∧
      ∀ start, (held start).isSome → start.toList <+: text →
        start.utf8ByteSize ≤ rule.start.utf8ByteSize
  /-- None is found exactly when no pattern begins the text. -/
  findsNone : ∀ text, lexer.matchAt text = none ↔
    ∀ start, (held start).isSome → ¬ start.toList <+: text

/-- A lexer whose rules have their own keys keeps them as a map does. This puts together what is
known of each operation by itself. -/
theorem Keyed.isTable {lexer : Lexer} (keyed : lexer.Keyed) : IsTable lexer lexer.rule? where
  rule := fun start => rfl
  own := by
    intro start rule found
    refine ⟨keyed start rule found, ?_⟩
    rintro rfl
    rw [keyed.rule?_empty] at found
    cases found
  registers := lexer.deliminate_eq_ok_iff
  refuses := deliminate_eq_error_iff keyed
  removes := undeliminate_eq_ok_iff keyed
  misses := lexer.undeliminate_eq_error_iff
  counts := ⟨lexer.starts, lexer.mem_starts_iff, lexer.ruleCount_eq_card⟩
  bounds := (lexer.longestStart_le_iff lexer.longestStart).mp (Nat.le_refl _)
  attains := lexer.longestStart_attained
  finds := matchAt_eq_some_iff_bytes keyed
  findsNone := by
    intro text
    rw [matchAt_eq_none_iff keyed]
    simp only [Begins, not_and]

/-- The edit is refused, or there is no rule to be edited. -/
def Refuses (lexer : Lexer) : Edit → Prop
  | .deliminate start ending => ∃ problem, lexer.deliminate start ending = .error problem
  | .undeliminate start => ∃ problem, lexer.undeliminate start = .error problem
  | .escapedBy start _ => lexer.rule? start = none
  | .filtered start _ => lexer.rule? start = none
  | .tagged _ => False
  | .defined _ => False

/-- A refused edit changes nothing. An error leaves the lexer that there was, and a rule that is
missing cannot be changed. -/
theorem edit_eq_of_refuses {lexer : Lexer} {edit : Edit} (refused : lexer.Refuses edit) :
    lexer.edit edit = lexer := by
  have unchanged {start : String} (missing : lexer.rule? start = none) (change : Rule → Rule) :
      lexer.changeRule start change = lexer := by
    rw [changeRule, show lexer.rules.find? start = none from missing]
  cases edit with
  | deliminate start ending =>
    obtain ⟨problem, refused⟩ := refused
    rw [Lexer.edit, refused]
  | undeliminate start =>
    obtain ⟨problem, refused⟩ := refused
    rw [Lexer.edit, refused]
  | escapedBy start escape => exact unchanged refused _
  | filtered start hidden => exact unchanged refused _
  | tagged chain => cases refused
  | defined definitions => cases refused

end Lexer

end Parlance
