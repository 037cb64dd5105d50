import Parlance.Proofs.Lexer.Table

/-!
# Filing rules by length

Rules can be sorted into buckets by the number of bytes of their start patterns. A pattern is
then looked up in the bucket for its length only, and a text that is to begin with a pattern is
cut after as many bytes as the bucket says, which must not be inside a character.

The buckets are tidy when each of them has rules, and only such that belong there. Filing a rule
and discarding one keep them so. In tidy buckets there is a bucket of some length exactly when a
pattern of that length is in use, so the last bucket tells how long the longest patterns are.
-/

namespace Parlance

namespace Text

/-- The characters at the start of the text that take exactly so many bytes. There are none when
the bytes end inside a character or behind the text. -/
def firstBytes? (bytes : Nat) : List Char → Option (List Char)
  | [] => if bytes = 0 then some [] else none
  | c :: rest =>
    if bytes = 0 then some []
    else if c.utf8Size ≤ bytes then (firstBytes? (bytes - c.utf8Size) rest).map (c :: ·)
    else none

/-- Every text begins with no bytes. -/
theorem firstBytes?_zero (text : List Char) : firstBytes? 0 text = some [] := by
  cases text <;> rfl

/-- They are the start of the text that has so many bytes.

Proof: the induction follows the text. Where bytes are left and the text goes on, its first
character is the first of those that are taken, if it fits. -/
theorem firstBytes?_eq_some_iff {bytes : Nat} {text first : List Char} :
    firstBytes? bytes text = some first ↔ first <+: text ∧ byteLength first = bytes := by
  induction text generalizing bytes first with
  | nil =>
    rw [List.prefix_nil]
    cases bytes with
    | zero =>
      rw [firstBytes?_zero, Option.some.injEq, byteLength_eq_zero_iff, and_self, eq_comm]
    | succ bytes =>
      refine iff_of_false (by simp [firstBytes?]) ?_
      rintro ⟨rfl, length⟩
      cases length
  | cons c rest inductionHypothesis =>
    cases bytes with
    | zero =>
      rw [firstBytes?_zero, Option.some.injEq, byteLength_eq_zero_iff, eq_comm]
      refine ⟨?_, And.right⟩
      rintro rfl
      exact ⟨List.nil_prefix, rfl⟩
    | succ bytes =>
      rw [firstBytes?, if_neg (Nat.succ_ne_zero bytes)]
      cases first with
      | nil =>
        refine iff_of_false ?_ fun ⟨_, length⟩ => Nat.succ_ne_zero bytes length.symm
        split <;> simp
      | cons d others =>
        rw [List.cons_prefix_cons, byteLength]
        by_cases fits : c.utf8Size ≤ bytes + 1
        · rw [if_pos fits, Option.map_eq_some_iff]
          constructor
          · rintro ⟨found, isFirst, same⟩
            obtain ⟨rfl, rfl⟩ := List.cons.inj same
            obtain ⟨begins, length⟩ := inductionHypothesis.mp isFirst
            exact ⟨⟨rfl, begins⟩, by omega⟩
          · rintro ⟨⟨rfl, begins⟩, length⟩
            exact ⟨others, inductionHypothesis.mpr ⟨begins, by omega⟩, rfl⟩
        · rw [if_neg fits]
          refine iff_of_false (by simp) ?_
          rintro ⟨⟨rfl, _⟩, length⟩
          omega

end Text

namespace Lexer

/-- Rules in buckets by the number of bytes of their start patterns. -/
abbrev Filing := Std.ExtTreeMap Nat (Dictionary Rule)

namespace Filing

/-- The bucket for patterns of as many bytes as the given one. -/
def bucket (filing : Filing) (start : String) : Dictionary Rule :=
  filing[start.utf8ByteSize]?.getD .empty

/-- The rule kept under a start pattern. -/
def find? (filing : Filing) (start : String) : Option Rule :=
  filing[start.utf8ByteSize]?.bind (·.find? start)

/-- Keep a rule under a start pattern. -/
def file (filing : Filing) (start : String) (rule : Rule) : Filing :=
  filing.insert start.utf8ByteSize ((filing.bucket start).insert start rule)

/-- Keep no rule under a start pattern any more, and no bucket without rules. -/
def discard (filing : Filing) (start : String) : Filing :=
  let left := (filing.bucket start).erase start
  if left.size = 0 then filing.erase start.utf8ByteSize
  else filing.insert start.utf8ByteSize left

/-- The number of bytes of the patterns in the last bucket. -/
def reach (filing : Filing) : Nat := filing.maxKey?.getD 0

/-- A rule that is kept is in the bucket for its pattern, and where there is no bucket the empty one
is searched. -/
theorem find?_eq_bucket (filing : Filing) (start : String) :
    filing.find? start = (filing.bucket start).find? start := by
  rw [find?, bucket]
  cases filing[start.utf8ByteSize]? with
  | none => rfl
  | some found => rfl

/-- Exchanging a bucket changes the answers for patterns of that number of bytes, and no others. -/
theorem find?_insert (filing : Filing) (start key : String) (bucket : Dictionary Rule) :
    find? (filing.insert start.utf8ByteSize bucket) key =
      if start.utf8ByteSize = key.utf8ByteSize then bucket.find? key else filing.find? key := by
  simp only [find?, Std.ExtTreeMap.getElem?_insert, compare_eq_iff_eq]
  split <;> rfl

/-- Behind filing a rule, that rule is found under its pattern and all other patterns are answered
as before. A pattern of the same length is in the same bucket, which only grows. -/
theorem find?_file (filing : Filing) (start key : String) (rule : Rule) :
    (filing.file start rule).find? key = if start = key then some rule else filing.find? key := by
  rw [file, find?_insert]
  by_cases sameLength : start.utf8ByteSize = key.utf8ByteSize
  · have sameBucket : filing.bucket start = filing.bucket key := by
      rw [bucket, bucket, sameLength]
    rw [if_pos sameLength, Dictionary.find?_insert, find?_eq_bucket, sameBucket]
    simp only [eq_comm]
  · have different : start ≠ key := fun same => sameLength (congrArg _ same)
    rw [if_neg sameLength, if_neg different]

/-- Without a bucket no pattern of that number of bytes is found, and all others are found as
before. -/
theorem find?_erase (filing : Filing) (start key : String) :
    find? (filing.erase start.utf8ByteSize) key =
      if start.utf8ByteSize = key.utf8ByteSize then none else filing.find? key := by
  simp only [find?, Std.ExtTreeMap.getElem?_erase, compare_eq_iff_eq]
  split <;> rfl

/-- Behind discarding a rule, nothing is found under its pattern and all other patterns are answered
as before, whether the bucket was emptied or not. -/
theorem find?_discard (filing : Filing) (start key : String) :
    (filing.discard start).find? key = if start = key then none else filing.find? key := by
  have erased (sameLength : start.utf8ByteSize = key.utf8ByteSize) :
      ((filing.bucket start).erase start).find? key =
        if start = key then none else filing.find? key := by
    rw [Dictionary.find?_erase, find?_eq_bucket, bucket, bucket, sameLength]
    simp only [eq_comm]
  have kept (otherLength : start.utf8ByteSize ≠ key.utf8ByteSize) : start ≠ key :=
    fun same => otherLength (congrArg _ same)
  rw [discard]
  split
  · rename_i nothingLeft
    rw [find?_erase]
    split
    · rename_i sameLength
      rw [← erased sameLength, Dictionary.find?, List.length_eq_zero_iff.mp nothingLeft]
      rfl
    · rename_i otherLength
      rw [if_neg (kept otherLength)]
  · rw [find?_insert]
    split
    · rename_i sameLength
      exact erased sameLength
    · rename_i otherLength
      rw [if_neg (kept otherLength)]

/-- Every bucket has rules, and only such whose patterns have the bucket's number of bytes. -/
structure Tidy (filing : Filing) : Prop where
  nonempty : ∀ {length : Nat} {bucket : Dictionary Rule}, filing[length]? = some bucket →
    bucket.size ≠ 0
  sorted : ∀ {length : Nat} {bucket : Dictionary Rule}, filing[length]? = some bucket →
    ∀ {start : String} {rule : Rule}, bucket.find? start = some rule →
      start.utf8ByteSize = length

/-- The rules of the bucket for a pattern have as many bytes as the pattern. Where there is no such
bucket, there is no such rule. -/
theorem Tidy.bucket_sorted {filing : Filing} (tidy : filing.Tidy) {start key : String}
    {rule : Rule} (found : (filing.bucket start).find? key = some rule) :
    key.utf8ByteSize = start.utf8ByteSize := by
  rw [bucket] at found
  cases held : filing[start.utf8ByteSize]? with
  | none =>
    rw [held] at found
    cases found
  | some bucket =>
    rw [held] at found
    exact tidy.sorted held found

/-- Putting a bucket in its place leaves the buckets tidy when it is so itself. Every other bucket
is the one that was there before. -/
theorem Tidy.insert {filing : Filing} (tidy : filing.Tidy) {length : Nat}
    {bucket : Dictionary Rule} (nonempty : bucket.size ≠ 0)
    (sorted : ∀ {start : String} {rule : Rule}, bucket.find? start = some rule →
      start.utf8ByteSize = length) : Tidy (filing.insert length bucket) := by
  have held {other : Nat} {found : Dictionary Rule}
      (inside : (filing.insert length bucket)[other]? = some found) :
      other = length ∧ found = bucket ∨ filing[other]? = some found := by
    simp only [Std.ExtTreeMap.getElem?_insert, compare_eq_iff_eq] at inside
    split at inside
    · rename_i same
      exact .inl ⟨same.symm, (Option.some.inj inside).symm⟩
    · exact .inr inside
  constructor
  · intro other found inside
    rcases held inside with ⟨rfl, rfl⟩ | before
    · exact nonempty
    · exact tidy.nonempty before
  · intro other found inside start rule kept
    rcases held inside with ⟨rfl, rfl⟩ | before
    · exact sorted kept
    · exact tidy.sorted before kept

/-- Filing a rule keeps the buckets tidy: its bucket has a rule then, and one of the right
length. -/
theorem Tidy.file {filing : Filing} (tidy : filing.Tidy) (start : String) (rule : Rule) :
    (filing.file start rule).Tidy := by
  have kept : ((filing.bucket start).insert start rule).find? start = some rule := by
    rw [Dictionary.find?_insert, if_pos rfl]
  refine tidy.insert ?_ ?_
  · intro none
    rw [Dictionary.find?, List.length_eq_zero_iff.mp none] at kept
    cases kept
  · intro other held found
    rw [Dictionary.find?_insert] at found
    split at found
    · rename_i same
      rw [same]
    · exact tidy.bucket_sorted found

/-- Leaving out a whole bucket keeps the others tidy. -/
theorem Tidy.erase {filing : Filing} (tidy : filing.Tidy) (length : Nat) :
    Tidy (filing.erase length) := by
  have held {other : Nat} {found : Dictionary Rule}
      (inside : (filing.erase length)[other]? = some found) : filing[other]? = some found := by
    rw [Std.ExtTreeMap.getElem?_erase] at inside
    split at inside
    · cases inside
    · exact inside
  exact ⟨fun inside => tidy.nonempty (held inside), fun inside => tidy.sorted (held inside)⟩

/-- Discarding a rule keeps the buckets tidy, since a bucket that it empties goes with it. A bucket
that keeps other rules keeps them under their own patterns. -/
theorem Tidy.discard {filing : Filing} (tidy : filing.Tidy) (start : String) :
    (filing.discard start).Tidy := by
  rw [Filing.discard]
  split
  · exact tidy.erase _
  · rename_i some
    refine tidy.insert some ?_
    intro other rule found
    rw [Dictionary.find?_erase] at found
    split at found
    · cases found
    · exact tidy.bucket_sorted found

/-- There is a bucket of so many bytes exactly when a pattern of so many bytes is in use. A bucket
has a rule in it, and a pattern that is found is found in a bucket. -/
theorem Tidy.mem_iff {filing : Filing} (tidy : filing.Tidy) {length : Nat} :
    length ∈ filing ↔ ∃ start, start.utf8ByteSize = length ∧ (filing.find? start).isSome := by
  rw [Std.ExtTreeMap.mem_iff_isSome_getElem?, Option.isSome_iff_exists]
  constructor
  · rintro ⟨bucket, held⟩
    have filled : 0 < bucket.entries.length := Nat.pos_of_ne_zero (tidy.nonempty held)
    obtain ⟨⟨start, rule⟩, member⟩ := List.exists_mem_of_length_pos filled
    have found : bucket.find? start = some rule :=
      (Dictionary.lookup_eq_some_iff_mem bucket.sorted start rule).mpr member
    have own := tidy.sorted held found
    refine ⟨start, own, ?_⟩
    rw [Filing.find?, own, held, Option.bind_some, found]
    rfl
  · rintro ⟨start, rfl, found⟩
    rw [Filing.find?] at found
    cases held : filing[start.utf8ByteSize]? with
    | none =>
      rw [held] at found
      cases found
    | some bucket => exact ⟨bucket, rfl⟩

/-- A bound on the last bucket is one on all of them. -/
theorem reach_le_iff (filing : Filing) (bound : Nat) :
    filing.reach ≤ bound ↔ ∀ length ∈ filing, length ≤ bound := by
  have last := @Std.ExtTreeMap.maxKey?_le _ _ _ filing _ bound
  simp only [Nat.isLE_compare] at last
  rw [← last, reach]
  cases filing.maxKey? with
  | none => simp
  | some length => simp

/-- The last bucket reaches as far as before, or as far as the new pattern when that is longer. Both
sides have the same upper bounds, namely those of the old lengths and of the new one. -/
theorem reach_file (filing : Filing) (start : String) (rule : Rule) :
    (filing.file start rule).reach = max filing.reach start.utf8ByteSize := by
  refine eq_of_forall_ge_iff fun bound => ?_
  rw [reach_le_iff, max_le_iff, reach_le_iff]
  simp only [file, Std.ExtTreeMap.mem_insert, compare_eq_iff_eq]
  constructor
  · intro bounded
    exact ⟨fun length held => bounded length (.inr held), bounded _ (.inl rfl)⟩
  · rintro ⟨bounded, here⟩ length (rfl | held)
    · exact here
    · exact bounded length held

/-- A bucket that is made without a rule has the rules that were there before. -/
theorem bucket_insertIfNew (filing : Filing) (length : Nat) (start : String) :
    bucket (filing.insertIfNew length .empty) start = filing.bucket start := by
  simp only [bucket, Std.ExtTreeMap.getElem?_insertIfNew, compare_eq_iff_eq]
  split
  · rename_i isNew
    obtain ⟨rfl, missing⟩ := isNew
    rw [Std.ExtTreeMap.getElem?_eq_none missing]
    rfl
  · rfl

/-- It is filled by filing a rule, as if it was made for the rule. That is so for every number of
bytes, whether there was a bucket for it or not. -/
theorem file_insertIfNew (filing : Filing) (start : String) (rule : Rule) :
    file (filing.insertIfNew start.utf8ByteSize .empty) start rule = filing.file start rule := by
  apply Std.ExtTreeMap.ext_getElem?
  intro length
  simp only [file, bucket_insertIfNew, Std.ExtTreeMap.getElem?_insert,
    Std.ExtTreeMap.getElem?_insertIfNew, compare_eq_iff_eq]
  split
  · rfl
  · rename_i otherLength
    rw [if_neg fun isNew => otherLength isNew.1]

/-- No bucket is made where there is one. -/
theorem insertIfNew_eq_self {filing : Filing} {start : String}
    (found : (filing.find? start).isSome) :
    filing.insertIfNew start.utf8ByteSize .empty = filing := by
  have held : start.utf8ByteSize ∈ filing := by
    rw [Std.ExtTreeMap.mem_iff_isSome_getElem?]
    exact Option.isSome_of_isSome_bind found
  apply Std.ExtTreeMap.ext_getElem?
  intro length
  rw [Std.ExtTreeMap.getElem?_insertIfNew, if_neg fun isNew => isNew.2 held]

end Filing

end Lexer

end Parlance
