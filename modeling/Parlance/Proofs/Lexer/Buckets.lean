import Parlance.Proofs.Lexer.Filing

/-!
# Rules in buckets

A table of rules can keep them in buckets by the number of bytes of their start patterns, with
the number of the longest ones kept beside the buckets. To find the rule that applies at a place,
the buckets are gone through from the longest patterns down, as far as the text still has that
many bytes. In each, the pattern that the text has there is looked up; there is none where its
bytes would end inside a character.

This file says that a table in buckets answers every question as the table of the lexer does,
after any edits. What could go wrong is that a bucket stays behind empty, that a rule is filed
under the wrong number, or that the kept number is not that of the longest pattern any more. The
edits preserve that none of this is so, also when they are refused.
-/

namespace Parlance

namespace Lexer

/-- Rules in buckets, and the number of bytes of the longest patterns. -/
structure Buckets where
  filing : Filing := {}
  longest : Nat := 0

namespace Buckets

/-- Register a rule. The bucket is made first, and the rule is put into it unless its pattern is
in use. -/
def register (buckets : Buckets) (start : String) (ending : Ending) :
    Except ConfigError Unit × Buckets :=
  match newRule? start ending with
  | none => (.error .emptyPattern, buckets)
  | some rule =>
    let filing : Filing := buckets.filing.insertIfNew start.utf8ByteSize .empty
    if (filing.find? start).isSome then
      (.error (.duplicateDeliminator start), { buckets with filing })
    else
      (.ok (), {
        filing := filing.file start rule
        longest := max buckets.longest start.utf8ByteSize })

/-- Remove a rule. -/
def remove (buckets : Buckets) (start : String) : Except ConfigError Rule × Buckets :=
  if start.isEmpty then (.error .emptyPattern, buckets)
  else match buckets.filing.find? start with
    | none => (.error (.unknownDeliminator start), buckets)
    | some rule =>
      let filing := buckets.filing.discard start
      (.ok rule, { filing, longest := filing.reach })

/-- Change the rule kept under a start pattern, if there is one. -/
def change (buckets : Buckets) (start : String) (change : Rule → Rule) : Buckets :=
  match buckets.filing.find? start with
  | none => buckets
  | some rule => { buckets with filing := buckets.filing.file start (change rule) }

/-- The number of rules. -/
def ruleCount (buckets : Buckets) : Nat :=
  buckets.filing.toList.foldl (fun count entry => count + entry.2.size) 0

/-- The rule in a bucket whose pattern begins the text. -/
def lookIn (text : List Char) (entry : Nat × Dictionary Rule) : Option Rule :=
  (Text.firstBytes? entry.1 text).bind fun first => entry.2.find? (String.ofList first)

/-- The buckets for the patterns that the text is long enough for, those for the longest patterns
first. -/
def within (buckets : Buckets) (text : List Char) : List (Nat × Dictionary Rule) :=
  buckets.filing.toList.reverse.filter fun entry =>
    entry.1 ≤ min buckets.longest (Text.byteLength text)

/-- The rule that applies at the start of `text`. -/
def matchAt (buckets : Buckets) (text : List Char) : Option Rule :=
  (buckets.within text).findSome? (lookIn text)

/-- The buckets after an edit. -/
def edit (buckets : Buckets) : Edit → Buckets
  | .deliminate start ending => (buckets.register start ending).2
  | .undeliminate start => (buckets.remove start).2
  | .escapedBy start escape =>
    buckets.change start fun rule => { rule with escape := some escape }
  | .filtered start filtered => buckets.change start fun rule => { rule with filtered }
  | .tagged _ => buckets
  | .defined _ => buckets

/-! ## Outcomes of registering and removing -/

variable {buckets : Buckets} {lexer : Lexer}

/-- The empty pattern is refused before any bucket is made. -/
theorem register_empty (buckets : Buckets) (ending : Ending) :
    buckets.register "" ending = (.error .emptyPattern, buckets) := by
  rw [register, newRule?_empty]

/-- A bucket that holds the pattern is there already, so none is made. -/
theorem register_inUse {start : String} (nonempty : start ≠ "")
    (inUse : (buckets.filing.find? start).isSome) (ending : Ending) :
    buckets.register start ending = (.error (.duplicateDeliminator start), buckets) := by
  simp only [register, newRule?_of_ne nonempty, Filing.insertIfNew_eq_self inUse, inUse, if_true]

/-- A pattern that is not in use is registered: its rule is filed, and it may be the longest one
from now on. -/
theorem register_unused {start : String} (nonempty : start ≠ "")
    (unused : buckets.filing.find? start = none) (ending : Ending) :
    ∃ rule, newRule? start ending = some rule ∧
      buckets.register start ending = (.ok (), {
        filing := buckets.filing.file start rule
        longest := max buckets.longest start.utf8ByteSize }) := by
  have looked : Filing.find? (buckets.filing.insertIfNew start.utf8ByteSize .empty) start =
      none := by
    rw [Filing.find?_eq_bucket, Filing.bucket_insertIfNew, ← Filing.find?_eq_bucket, unused]
  refine ⟨_, newRule?_of_ne nonempty ending, ?_⟩
  simp only [register, newRule?_of_ne nonempty, looked, Filing.file_insertIfNew]
  rfl

/-- The empty pattern is refused when rules are removed, too. -/
theorem remove_empty (buckets : Buckets) : buckets.remove "" = (.error .emptyPattern, buckets) :=
  rfl

/-- Where no rule is kept under the pattern, the removal is refused and nothing changes. -/
theorem remove_missing {start : String} (nonempty : start ≠ "")
    (missing : buckets.filing.find? start = none) :
    buckets.remove start = (.error (.unknownDeliminator start), buckets) := by
  have test : start.isEmpty = false := by simpa using nonempty
  simp [remove, test, missing]

/-- A rule that is kept is removed and given back, and the length of the longest pattern is looked
up again. -/
theorem remove_found {start : String} (nonempty : start ≠ "") {rule : Rule}
    (found : buckets.filing.find? start = some rule) :
    buckets.remove start = (.ok rule, {
      filing := buckets.filing.discard start
      longest := (buckets.filing.discard start).reach }) := by
  have test : start.isEmpty = false := by simpa using nonempty
  simp [remove, test, found]

/-! ## Buckets beside a lexer -/

/-- The buckets answer as the lexer does, they are tidy, and the longest ones are known. -/
structure Mirrors (buckets : Buckets) (lexer : Lexer) : Prop where
  rule : ∀ start, buckets.filing.find? start = lexer.rule? start
  tidy : buckets.filing.Tidy
  longest : buckets.longest = buckets.filing.reach

/-- Changing a rule does the same to the buckets as to the lexer. A changed rule stays under its
pattern, so the lengths of the patterns are the same as before. -/
theorem Mirrors.change (mirrors : buckets.Mirrors lexer) (start : String) (change : Rule → Rule) :
    (buckets.change start change).Mirrors (lexer.changeRule start change) := by
  have looked := mirrors.rule start
  rw [Buckets.change]
  cases found : buckets.filing.find? start with
  | none =>
    have missing : lexer.rules.find? start = none := looked.symm.trans found
    have unchanged : lexer.changeRule start change = lexer := by rw [changeRule, missing]
    rw [unchanged]
    exact mirrors
  | some rule =>
    have inUse : start.utf8ByteSize ∈ buckets.filing :=
      mirrors.tidy.mem_iff.mpr ⟨start, rfl, by rw [found]; rfl⟩
    have within := (buckets.filing.reach_le_iff buckets.filing.reach).mp le_rfl _ inUse
    constructor
    · intro key
      rw [Filing.find?_file, rule?_changeRule]
      split
      · rename_i same
        rw [← same, ← looked, found, Option.map_some]
      · exact mirrors.rule key
    · exact mirrors.tidy.file start (change rule)
    · rw [Filing.reach_file, max_eq_left within]
      exact mirrors.longest

/-- Registering a rule has the same outcome, and it does the same to the buckets as to the
lexer. -/
theorem Mirrors.register (mirrors : buckets.Mirrors lexer) (start : String) (ending : Ending) :
    (buckets.register start ending).1 = (lexer.deliminate start ending).map (fun _ => ()) ∧
      (buckets.register start ending).2.Mirrors (lexer.edit (.deliminate start ending)) := by
  rw [Lexer.edit]
  rcases lexer.deliminate_cases start ending with ⟨rfl, refused⟩ | ⟨nonempty, inUse, refused⟩ |
    ⟨nonempty, unused, next, added, kept⟩
  · rw [register_empty, refused]
    exact ⟨rfl, mirrors⟩
  · rw [register_inUse nonempty (by rwa [mirrors.rule]), refused]
    exact ⟨rfl, mirrors⟩
  · have missing : buckets.filing.find? start = none := by rw [mirrors.rule, unused]
    obtain ⟨rule, isNew, registered⟩ := register_unused nonempty missing ending
    rw [registered, added]
    refine ⟨rfl, ?_, mirrors.tidy.file start rule, ?_⟩
    · intro key
      rw [Filing.find?_file, kept, mirrors.rule]
      split
      · rename_i same
        rw [← same, isNew]
      · rfl
    · rw [Filing.reach_file, mirrors.longest]

/-- Removing a rule has the same outcome, and it does the same to the buckets as to the
lexer. -/
theorem Mirrors.remove (mirrors : buckets.Mirrors lexer) (start : String) :
    (buckets.remove start).1 = (lexer.undeliminate start).map Prod.fst ∧
      (buckets.remove start).2.Mirrors (lexer.edit (.undeliminate start)) := by
  rw [Lexer.edit]
  rcases lexer.undeliminate_cases start with ⟨rfl, refused⟩ | ⟨nonempty, missing, refused⟩ |
    ⟨nonempty, rule, next, found, removed, kept⟩
  · rw [remove_empty, refused]
    exact ⟨rfl, mirrors⟩
  · rw [remove_missing nonempty (by rw [mirrors.rule, missing]), refused]
    exact ⟨rfl, mirrors⟩
  · rw [remove_found nonempty (by rw [mirrors.rule, found]), removed]
    refine ⟨rfl, ?_, mirrors.tidy.discard start, rfl⟩
    intro key
    rw [kept, Filing.find?_discard, mirrors.rule]

/-- An edit leaves the buckets in the same state as the lexer. -/
theorem Mirrors.edit (mirrors : buckets.Mirrors lexer) (edit : Edit) :
    (buckets.edit edit).Mirrors (lexer.edit edit) := by
  cases edit with
  | deliminate start ending => exact (mirrors.register start ending).2
  | undeliminate start => exact (mirrors.remove start).2
  | escapedBy start escape => exact mirrors.change start _
  | filtered start hidden => exact mirrors.change start _
  | tagged chain => exact ⟨mirrors.rule, mirrors.tidy, mirrors.longest⟩
  | defined definitions => exact ⟨mirrors.rule, mirrors.tidy, mirrors.longest⟩

/-! ## What the buckets answer -/

/-- The buckets know the length of the longest pattern of the lexer that they mirror. Both are the
least bound on the lengths of the patterns in use. -/
theorem Mirrors.longest_eq (mirrors : buckets.Mirrors lexer) :
    buckets.longest = lexer.longestStart := by
  rw [mirrors.longest]
  refine eq_of_forall_ge_iff fun bound => ?_
  rw [Filing.reach_le_iff, longestStart_le_iff]
  simp only [mirrors.tidy.mem_iff, mirrors.rule]
  constructor
  · intro bounded start inUse
    exact bounded _ ⟨start, rfl, inUse⟩
  · rintro bounded _ ⟨start, rfl, inUse⟩
    exact bounded start inUse

/-- The patterns in the buckets, one bucket after the other. -/
def patterns (buckets : Buckets) : List String :=
  buckets.filing.toList.flatMap fun entry => entry.2.keys

/-- Adding up the sizes of the buckets counts the patterns in them. By induction over the buckets,
whose sizes are added up one after the other. -/
theorem ruleCount_eq_length (buckets : Buckets) : buckets.ruleCount = buckets.patterns.length := by
  have counted (entries : List (Nat × Dictionary Rule)) (count : Nat) :
      entries.foldl (fun count entry => count + entry.2.size) count =
        count + (entries.flatMap fun entry => entry.2.keys).length := by
    induction entries generalizing count with
    | nil => rfl
    | cons entry entries inductionHypothesis =>
      rw [List.foldl_cons, inductionHypothesis, List.flatMap_cons, List.length_append,
        Dictionary.keys, List.length_map, Dictionary.size, Nat.add_assoc]
  rw [ruleCount, counted, Nat.zero_add, patterns]

/-- A pattern is in the buckets exactly when a rule is found under it. Buckets are tidy, so a
pattern can only be in the bucket for its own number of bytes, which is the one where it is looked
up. -/
theorem mem_patterns_iff (tidy : buckets.filing.Tidy) (start : String) :
    start ∈ buckets.patterns ↔ (buckets.filing.find? start).isSome := by
  rw [patterns, List.mem_flatMap]
  constructor
  · rintro ⟨⟨length, bucket⟩, member, isKey⟩
    have held := Std.ExtTreeMap.mem_toList_iff_getElem?_eq_some.mp member
    have found := (bucket.mem_keys_iff start).mp isKey
    obtain ⟨rule, isRule⟩ := Option.isSome_iff_exists.mp found
    rw [Filing.find?, tidy.sorted held isRule, held]
    exact found
  · intro found
    rw [Filing.find?] at found
    cases held : buckets.filing[start.utf8ByteSize]? with
    | none =>
      rw [held] at found
      cases found
    | some bucket =>
      rw [held] at found
      exact ⟨_, Std.ExtTreeMap.mem_toList_iff_getElem?_eq_some.mpr held,
        (bucket.mem_keys_iff start).mpr found⟩

/-- No pattern is in two buckets, since these are for different numbers of bytes, and none is
twice in the same bucket. -/
theorem patterns_nodup (tidy : buckets.filing.Tidy) : buckets.patterns.Nodup := by
  have bytes {length : Nat} {bucket : Dictionary Rule} {start : String}
      (member : (length, bucket) ∈ buckets.filing.toList) (isKey : start ∈ bucket.keys) :
      start.utf8ByteSize = length := by
    obtain ⟨rule, found⟩ := Option.isSome_iff_exists.mp ((bucket.mem_keys_iff start).mp isKey)
    exact tidy.sorted (Std.ExtTreeMap.mem_toList_iff_getElem?_eq_some.mp member) found
  rw [patterns, List.nodup_flatMap]
  constructor
  · intro entry _
    exact entry.2.nodup_keys
  · refine Std.ExtTreeMap.ordered_keys_toList.imp_of_mem ?_
    rintro ⟨length, bucket⟩ ⟨other, otherBucket⟩ member otherMember below start isKey otherKey
    have here := bytes member isKey
    have there := bytes otherMember otherKey
    rw [Nat.compare_eq_lt] at below
    omega

/-- Counting the rules bucket by bucket counts each of them once. -/
theorem Mirrors.ruleCount_eq (mirrors : buckets.Mirrors lexer) :
    buckets.ruleCount = lexer.ruleCount := by
  have members : buckets.patterns.toFinset = lexer.starts := by
    ext start
    rw [List.mem_toFinset, mem_patterns_iff mirrors.tidy, mirrors.rule, mem_starts_iff]
  rw [ruleCount_eq_card, ← members, List.toFinset_card_of_nodup (patterns_nodup mirrors.tidy),
    ruleCount_eq_length]

/-- A rule that is found in a bucket has a pattern that begins the text, and is kept under it. The
buckets are tidy, so the pattern has the bucket's number of bytes, and these are the ones that were
cut off the text. -/
theorem Mirrors.of_lookIn (mirrors : buckets.Mirrors lexer) (keyed : lexer.Keyed)
    {text : List Char} {length : Nat} {bucket : Dictionary Rule} {rule : Rule}
    (member : (length, bucket) ∈ buckets.within text)
    (found : lookIn text (length, bucket) = some rule) :
    lexer.rule? rule.start = some rule ∧ rule.start.toList <+: text ∧
      rule.start.utf8ByteSize = length := by
  obtain ⟨first, isFirst, isKept⟩ := Option.bind_eq_some_iff.mp found
  obtain ⟨begins, bytes⟩ := Text.firstBytes?_eq_some_iff.mp isFirst
  have held : buckets.filing[length]? = some bucket := by
    rw [within, List.mem_filter, List.mem_reverse] at member
    exact Std.ExtTreeMap.mem_toList_iff_getElem?_eq_some.mp member.1
  have own := mirrors.tidy.sorted held isKept
  have registered : lexer.rule? (String.ofList first) = some rule := by
    rw [← mirrors.rule, Filing.find?, own, held]
    exact isKept
  rw [keyed _ rule registered, String.toList_ofList]
  exact ⟨registered, begins, own⟩

/-- A rule whose pattern begins the text is found in its bucket, which is one of those that are
gone through. -/
theorem Mirrors.lookIn_of_begins (mirrors : buckets.Mirrors lexer) {text : List Char}
    {start : String} (inUse : (lexer.rule? start).isSome) (begins : start.toList <+: text) :
    ∃ bucket, (start.utf8ByteSize, bucket) ∈ buckets.within text ∧
      lookIn text (start.utf8ByteSize, bucket) ≠ none := by
  rw [← mirrors.rule] at inUse
  have reached : start.utf8ByteSize ≤ buckets.longest := by
    rw [mirrors.longest]
    exact (Filing.reach_le_iff _ _).mp le_rfl _ (mirrors.tidy.mem_iff.mpr ⟨start, rfl, inUse⟩)
  have fits : start.utf8ByteSize ≤ Text.byteLength text := by
    obtain ⟨rest, rfl⟩ := begins
    rw [Text.byteLength_append, Text.byteLength_toList]
    exact Nat.le_add_right _ _
  have isFirst : Text.firstBytes? start.utf8ByteSize text = some start.toList :=
    Text.firstBytes?_eq_some_iff.mpr ⟨begins, Text.byteLength_toList start⟩
  rw [Filing.find?] at inUse
  cases held : buckets.filing[start.utf8ByteSize]? with
  | none =>
    rw [held] at inUse
    cases inUse
  | some bucket =>
    rw [held] at inUse
    refine ⟨bucket, ?_, ?_⟩
    · rw [within, List.mem_filter, List.mem_reverse]
      refine ⟨Std.ExtTreeMap.mem_toList_iff_getElem?_eq_some.mpr held, ?_⟩
      simpa using ⟨reached, fits⟩
    · rw [lookIn, isFirst, Option.bind_some, String.ofList_toList]
      exact Option.isSome_iff_ne_none.mp inUse

/-- The rule that is found in the buckets is the one that applies.

Proof: the buckets are gone through in decreasing order of their numbers. All that could hold
a longer pattern of the text come before the one in which the pattern is found, and none of
them is left out, since no pattern is longer than the kept number says or than the text. -/
theorem Mirrors.matchAt_eq (mirrors : buckets.Mirrors lexer) (keyed : lexer.Keyed)
    (text : List Char) : buckets.matchAt text = lexer.matchAt text := by
  have decreasing : (buckets.within text).Pairwise fun entry later => later.1 < entry.1 := by
    refine List.Pairwise.filter _ (List.pairwise_reverse.mpr ?_)
    exact Std.ExtTreeMap.ordered_keys_toList.imp Nat.compare_eq_lt.mp
  rw [matchAt]
  cases chosen : (buckets.within text).findSome? (lookIn text) with
  | none =>
    rw [eq_comm, matchAt_eq_none_iff keyed]
    rintro start ⟨inUse, begins⟩
    obtain ⟨bucket, member, found⟩ := mirrors.lookIn_of_begins inUse begins
    exact found (List.findSome?_eq_none_iff.mp chosen _ member)
  | some rule =>
    obtain ⟨before, ⟨length, bucket⟩, after, split, found, passed⟩ :=
      List.findSome?_eq_some_iff.mp chosen
    have member : (length, bucket) ∈ buckets.within text := by simp [split]
    obtain ⟨registered, begins, own⟩ := mirrors.of_lookIn keyed member found
    rw [eq_comm, matchAt_eq_some_iff_bytes keyed]
    refine ⟨registered, begins, ?_⟩
    intro start inUse alsoBegins
    obtain ⟨otherBucket, otherMember, otherFound⟩ := mirrors.lookIn_of_begins inUse alsoBegins
    rw [split] at otherMember decreasing
    rcases List.mem_append.mp otherMember with earlier | later
    · exact absurd (passed _ earlier) otherFound
    · rcases List.mem_cons.mp later with same | behind
      · have equal := congrArg Prod.fst same
        omega
      · have smaller := List.rel_of_pairwise_cons (List.pairwise_append.mp decreasing).2.1 behind
        simp only at smaller
        omega

/-- The buckets give every answer that the lexer gives. -/
structure AnswersAs (buckets : Buckets) (lexer : Lexer) : Prop where
  rule : ∀ start, buckets.filing.find? start = lexer.rule? start
  register : ∀ start ending,
    (buckets.register start ending).1 = (lexer.deliminate start ending).map fun _ => ()
  remove : ∀ start, (buckets.remove start).1 = (lexer.undeliminate start).map Prod.fst
  ruleCount : buckets.ruleCount = lexer.ruleCount
  longest : buckets.longest = lexer.longestStart
  matchAt : ∀ text, buckets.matchAt text = lexer.matchAt text

/-- Buckets that mirror a lexer give every answer that it gives: looking up, registering, removing,
counting, and matching at the start of a text. -/
theorem Mirrors.answersAs (mirrors : buckets.Mirrors lexer) (keyed : lexer.Keyed) :
    buckets.AnswersAs lexer where
  rule := mirrors.rule
  register := fun start ending => (mirrors.register start ending).1
  remove := fun start => (mirrors.remove start).1
  ruleCount := mirrors.ruleCount_eq
  longest := mirrors.longest_eq
  matchAt := mirrors.matchAt_eq keyed

/-- The buckets of a new lexer after edits. -/
def edited (edits : List Edit) : Buckets := edits.foldl edit {}

/-- However a lexer is edited, its buckets are in the same state. By induction over the edits, from
buckets without rules. -/
theorem mirrors_edited (edits : List Edit) : (edited edits).Mirrors (Lexer.edited edits) := by
  have run (buckets : Buckets) (lexer : Lexer) (mirrors : buckets.Mirrors lexer) :
      (edits.foldl edit buckets).Mirrors (edits.foldl Lexer.edit lexer) := by
    induction edits generalizing buckets lexer with
    | nil => exact mirrors
    | cons edit edits inductionHypothesis => exact inductionHypothesis _ _ (mirrors.edit edit)
  refine run {} {} ⟨?_, ⟨?_, ?_⟩, ?_⟩
  · intro start
    simp [Filing.find?, rule?, Dictionary.find?, Dictionary.empty]
  · simp
  · simp
  · simp [Filing.reach]

/-- An edit that the lexer refuses leaves the buckets as they were. Every kind of edit that can be
refused is refused by the buckets for the same reason, before anything is changed. -/
theorem Mirrors.edit_eq_of_refuses (mirrors : buckets.Mirrors lexer) {edit : Edit}
    (refused : lexer.Refuses edit) : buckets.edit edit = buckets := by
  have unchanged {start : String} (missing : lexer.rule? start = none) (change : Rule → Rule) :
      buckets.change start change = buckets := by
    rw [Buckets.change, mirrors.rule, missing]
  cases edit with
  | deliminate start ending =>
    obtain ⟨problem, refused⟩ := refused
    rw [Buckets.edit]
    rcases lexer.deliminate_cases start ending with ⟨rfl, _⟩ | ⟨nonempty, inUse, _⟩ |
      ⟨_, _, next, added, _⟩
    · rw [register_empty]
    · rw [register_inUse nonempty (by rwa [mirrors.rule])]
    · rw [added] at refused
      cases refused
  | undeliminate start =>
    obtain ⟨problem, refused⟩ := refused
    rw [Buckets.edit]
    rcases lexer.undeliminate_cases start with ⟨rfl, _⟩ | ⟨nonempty, missing, _⟩ |
      ⟨_, rule, next, _, removed, _⟩
    · rw [remove_empty]
    · rw [remove_missing nonempty (by rw [mirrors.rule, missing])]
    · rw [removed] at refused
      cases refused
  | escapedBy start escape => exact unchanged refused _
  | filtered start hidden => exact unchanged refused _
  | tagged chain => cases refused
  | defined definitions => cases refused

end Buckets

/-- However a lexer is edited, it keeps its rules as a map does from start patterns that are not
empty: under each pattern there is what the edits of that pattern made of it, and from there on
registering, removing, counting, measuring and finding are as they are for a map. Refused edits
change nothing. The same holds of rules that are kept in buckets by length, where refused edits
leave no bucket behind. -/
theorem edited_keeps_table (edits : List Edit) :
    IsTable (edited edits) (heldAfter edits) ∧
    (Buckets.edited edits).AnswersAs (edited edits) ∧
    (∀ edit, (edited edits).Refuses edit →
      edited (edits ++ [edit]) = edited edits ∧
        Buckets.edited (edits ++ [edit]) = Buckets.edited edits) := by
  have keyed := keyed_edited edits
  have mirrors := Buckets.mirrors_edited edits
  refine ⟨?_, mirrors.answersAs keyed, ?_⟩
  · rw [show heldAfter edits = (edited edits).rule? from
      funext fun key => (rule?_edited edits key).symm]
    exact keyed.isTable
  · intro edit refused
    rw [edited, Buckets.edited, List.foldl_concat, List.foldl_concat]
    exact ⟨edit_eq_of_refuses refused, mirrors.edit_eq_of_refuses refused⟩

/-- Two patterns are registered and the longer one is removed again. -/
def sumsOnly : List Edit := [.deliminate "+" .none, .deliminate "+=" .none, .undeliminate "+="]

/-- The longest pattern is known again after the longer one was removed, the shorter one is found
where both began, and a second removal is refused and changes nothing. -/
theorem sumsOnly_keeps_table :
    heldAfter sumsOnly "+=" = none ∧
      (edited sumsOnly).longestStart = 1 ∧ (Buckets.edited sumsOnly).longest = 1 ∧
      ((edited sumsOnly).matchAt "+=x".toList).map (·.start) = some "+" ∧
      (edited sumsOnly).undeliminate "+=" = .error (.unknownDeliminator "+=") ∧
      Buckets.edited (sumsOnly ++ [.undeliminate "+="]) = Buckets.edited sumsOnly := by
  obtain ⟨table, answers, unchanged⟩ := edited_keeps_table sumsOnly
  have removed : heldAfter sumsOnly "+=" = none := rfl
  have longest : (edited sumsOnly).longestStart = 1 := by decide
  have refused := (table.misses "+=").2.mpr ⟨by decide, removed⟩
  refine ⟨removed, longest, ?_, by decide, refused, ?_⟩
  · rw [answers.longest, longest]
  · exact (unchanged (.undeliminate "+=") ⟨_, refused⟩).2

end Lexer

end Parlance
