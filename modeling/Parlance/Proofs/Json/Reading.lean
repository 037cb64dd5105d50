import Mathlib.Data.List.DropRight
import Parlance.Proofs.Json.Literals
import Parlance.Proofs.Json.Visible

/-!
# Reading does not depend on blanks

Two texts that differ in blanks are read to the same document, up to the faults in it. Reading is
followed through both texts at once, from one visible character to the next, and what is left
unread is again two texts that differ in blanks. A fault itself may differ: a number that breaks
off ends too early at the end of a text and is malformed in front of a blank.

The depth of reading is bounded by a number that depends on the length of the text. A value needs
four steps for each character of its text and one more, and the items and members around it need
two more. What is left after an item is shorter, so the bounds are kept from one item to the next.
They say that the number suffices for each of the two texts on its own.
-/

namespace Parlance.Json

/-! ## Two readings -/

/-- What is left of two texts: less of each, again with a difference in blanks, or of neither
anything that can be read. -/
inductive Leaves (text spaced : List Char) :
    (left leftSpaced : Option (List Char)) → Prop where
  | none : Leaves text spaced none none
  | some {left leftSpaced : List Char} (respaced : Respaced left leftSpaced)
    (shorter : left.length < text.length) (shorterSpaced : leftSpaced.length < spaced.length) :
    Leaves text spaced (some left) (some leftSpaced)

/-- What is read from two texts that differ in blanks is the same up to faults, and so is, up to
blanks, what is left of them. -/
structure Alike {α : Type} (blur : α → α) (text spaced : List Char)
    (first second : α × Option (List Char)) : Prop where
  value : blur first.1 = blur second.1
  left : Leaves text spaced first.2 second.2

section Alike

variable {α : Type} {blur : α → α} {text spaced : List Char}

/-- What is left of two texts is less than any texts that are at least as long. Only the lengths of
the texts before reading matter. -/
theorem Leaves.mono {longer longerSpaced : List Char} {left leftSpaced : Option (List Char)}
    (leaves : Leaves text spaced left leftSpaced) (within : text.length ≤ longer.length)
    (withinSpaced : spaced.length ≤ longerSpaced.length) :
    Leaves longer longerSpaced left leftSpaced := by
  cases leaves with
  | none => exact .none
  | some respaced shorter shorterSpaced =>
    exact .some respaced (shorter.trans_le within) (shorterSpaced.trans_le withinSpaced)

/-- Two readings that are alike stay alike when what has been read before them is counted too, as
only the lengths of the texts before reading are compared. -/
theorem Alike.mono {first second : α × Option (List Char)} {longer longerSpaced : List Char}
    (alike : Alike blur text spaced first second) (within : text.length ≤ longer.length)
    (withinSpaced : spaced.length ≤ longerSpaced.length) :
    Alike blur longer longerSpaced first second :=
  ⟨alike.value, alike.left.mono within withinSpaced⟩

/-- Two readings that broke off are alike, whatever faults they tell: neither has a value, and
nothing is left of either text. -/
theorem Reading.IsBroken.alike {first second : Reading} (broken : first.IsBroken)
    (brokenSpaced : second.IsBroken) : Alike Document.blurred text spaced first second := by
  refine ⟨broken.value.trans brokenSpaced.value.symm, ?_⟩
  rw [broken.rest, brokenSpaced.rest]
  exact .none

/-- Two ends behind which nothing can be read. -/
theorem alike_stuck {value valueSpaced : α} (same : blur value = blur valueSpaced) :
    Alike blur text spaced (value, none) (valueSpaced, none) := ⟨same, .none⟩

/-- A word that settles the reader is read alike before two tails. What is read is determined by the
word, and so is how much of the word is left in front of each tail. -/
theorem Settled.alike {Tail : List Char → Prop} {read : List Char → Reading}
    {word longer longerSpaced : List Char} (settled : Settled Tail read word) (ends : Tail text)
    (endsSpaced : Tail spaced)
    (leaves : ∀ left, left <:+ word →
      Leaves longer longerSpaced (some (left ++ text)) (some (left ++ spaced))) :
    Alike Document.blurred longer longerSpaced (read (word ++ text)) (read (word ++ spaced)) := by
  obtain ⟨value, left, within, reads⟩ := settled
  obtain ⟨same, stopped⟩ := reads text ends
  obtain ⟨sameSpaced, stoppedSpaced⟩ := reads spaced endsSpaced
  refine ⟨same.trans sameSpaced.symm, ?_⟩
  rw [stopped, stoppedSpaced]
  cases left with
  | none => exact .none
  | some left => exact leaves left (within left rfl)

/-- A scalar is read alike. Its run settles the reader, as neither of the two texts behind it
continues the run. -/
theorem readValue_scalar_alike {c : Char} {run : List Char} (first : isScalarChar c)
    (others : ∀ d ∈ run, isScalarChar d) (ends : EndsScalar text) (endsSpaced : EndsScalar spaced)
    (rest : Respaced text spaced) (fuel other : Nat) :
    Alike Document.blurred (c :: (run ++ text)) (c :: (run ++ spaced))
      (readValue (fuel + 1) (c :: (run ++ text)))
      (readValue (other + 1) (c :: (run ++ spaced))) := by
  rw [readValue_scalar first fuel, readValue_scalar first other]
  refine (readValue_scalar_settled first run).alike ends endsSpaced fun left suffix => ?_
  have shorter := suffix.length_le
  refine .some (rest.run_append (fun d member => others d (suffix.subset member)) ends) ?_ ?_
  · simp only [List.length_cons, List.length_append]
    omega
  · simp only [List.length_cons, List.length_append]
    omega

/-- A literal is read alike. It is closed by a quote, with texts behind it that differ in blanks
only, or the texts are the same. -/
theorem readString_alike (visible : Visible ('"' :: text) ('"' :: spaced)) :
    Alike Document.blurred text spaced (readString text) (readString spaced) := by
  cases visible with
  | mark _ unquoted _ _ => exact absurd rfl unquoted
  | scalar first _ _ _ _ => exact absurd first (by decide)
  | literal enclosed rest =>
    refine (readString_settled enclosed).alike trivial trivial fun left suffix => ?_
    obtain rfl := List.suffix_nil.mp suffix
    refine .some rest ?_ ?_
    · simp only [List.nil_append, List.length_append, List.length_cons]
      omega
    · simp only [List.nil_append, List.length_append, List.length_cons]
      omega
  | same text =>
    refine ⟨rfl, ?_⟩
    have shorter := length_readString_lt text
    cases stopped : (readString text).2 with
    | none => exact .none
    | some left => exact .some (.same left) (shorter left stopped) (shorter left stopped)

end Alike

/-- With bounds that suffice, one of them `fuel`, texts that differ in blanks are read alike. -/
structure ReadsAlike (fuel : Nat) : Prop where
  value : ∀ {other text spaced}, Respaced text spaced → 4 * text.length + 1 ≤ fuel →
    4 * spaced.length + 1 ≤ other →
    Alike Document.blurred text spaced (readValue fuel text) (readValue other spaced)
  items : ∀ {other text spaced} isFirst, Respaced text spaced → 4 * text.length + 3 ≤ fuel →
    4 * spaced.length + 3 ≤ other →
    Alike Items.blurred text spaced (readItems fuel isFirst text) (readItems other isFirst spaced)
  item : ∀ {other text spaced}, Respaced text spaced → 4 * text.length + 2 ≤ fuel →
    4 * spaced.length + 2 ≤ other →
    Alike Items.blurred text spaced (readItem fuel text) (readItem other spaced)
  members : ∀ {other text spaced} isFirst, Respaced text spaced → 4 * text.length + 3 ≤ fuel →
    4 * spaced.length + 3 ≤ other →
    Alike Members.blurred text spaced (readMembers fuel isFirst text)
      (readMembers other isFirst spaced)
  member : ∀ {other text spaced} surplus surplusSpaced, Visible ('"' :: text) ('"' :: spaced) →
    4 * text.length + 2 ≤ fuel → 4 * spaced.length + 2 ≤ other →
    Alike Members.blurred text spaced (readMember fuel surplus text)
      (readMember other surplusSpaced spaced)

/-- Behind leading blanks there are no more leading blanks. -/
theorem skipSpace_skipSpace (text : List Char) : skipSpace (skipSpace text) = skipSpace text :=
  List.dropWhile_idempotent isSpace text

/-- A value is read from a text as it is from the text behind its leading blanks. -/
theorem readValue_skipSpace (fuel : Nat) (text : List Char) :
    readValue (fuel + 1) (skipSpace text) = readValue (fuel + 1) text := by
  rw [readValue, readValue, skipSpace_skipSpace]

/-- An opening bracket begins an array, whose items are read with one round less. -/
theorem readValue_array (fuel : Nat) (rest : List Char) :
    readValue (fuel + 1) ('[' :: rest) =
      (.array (readItems fuel true rest).1, (readItems fuel true rest).2) := by
  rw [readValue]
  rfl

/-- An opening brace begins an object, whose members are read with one round less. -/
theorem readValue_object (fuel : Nat) (rest : List Char) :
    readValue (fuel + 1) ('\x7b' :: rest) =
      (.object (readMembers fuel true rest).1, (readMembers fuel true rest).2) := by
  rw [readValue]
  rfl

/-- A quote begins a string literal, for which no rounds are needed. -/
theorem readValue_literal (fuel : Nat) (rest : List Char) :
    readValue (fuel + 1) ('"' :: rest) = readString rest := by
  rw [readValue]
  rfl

/-- No value begins with a character that is in no scalar and opens nothing. Scalars begin with a
digit, a minus sign or one of three letters, and everything else with a quote or an opening
bracket. -/
theorem readValue_mark {c : Char} (visible : isSpace c = false) (unquoted : c ≠ '"')
    (other : isScalarChar c = false) (array : c ≠ '[') (object : c ≠ '\x7b') (fuel : Nat)
    (rest : List Char) : (readValue (fuel + 1) (c :: rest)).IsBroken := by
  have apart (letter : Char) (scalar : isScalarChar letter) : c ≠ letter :=
    (ne_of_class scalar c other).symm
  have undigit := isDigit_eq_false other
  have null := apart 'n' (by decide)
  have yes := apart 't' (by decide)
  have no := apart 'f' (by decide)
  have minus := apart '-' (by decide)
  rw [readValue, skipSpace_cons_of_visible visible]
  split <;> simp_all [broken_isBroken]

/-- With one round more, values are read alike. The two texts begin with the same character behind
their blanks, or not at all, and the character decides which kind of value is read. -/
theorem ReadsAlike.value_succ {fuel other : Nat} {text spaced : List Char}
    (alike : ReadsAlike fuel) (respaced : Respaced text spaced)
    (enough : 4 * text.length + 1 ≤ fuel + 1) (enoughSpaced : 4 * spaced.length + 1 ≤ other) :
    Alike Document.blurred text spaced (readValue (fuel + 1) text) (readValue other spaced) := by
  obtain ⟨other, rfl⟩ : ∃ less, other = less + 1 := ⟨other - 1, by omega⟩
  have within := length_skipSpace_le text
  have withinSpaced := length_skipSpace_le spaced
  rw [← readValue_skipSpace, ← readValue_skipSpace other]
  refine Alike.mono ?_ within withinSpaced
  have visible := respaced.visible
  generalize skipSpace text = begins at *
  generalize skipSpace spaced = beginsSpaced at *
  cases visible with
  | nothing => exact (broken_isBroken _ _).alike (broken_isBroken _ _)
  | @mark c rest restSpaced visible unquoted mark later =>
    simp only [List.length_cons] at within withinSpaced
    by_cases array : c = '['
    · subst array
      have items := alike.items true later (by omega) (by omega : _ ≤ other)
      rw [readValue_array, readValue_array]
      exact ⟨congrArg Document.array items.value, items.left.mono (by simp) (by simp)⟩
    by_cases object : c = '\x7b'
    · subst object
      have members := alike.members true later (by omega) (by omega : _ ≤ other)
      rw [readValue_object, readValue_object]
      exact ⟨congrArg Document.object members.value, members.left.mono (by simp) (by simp)⟩
    · exact (readValue_mark visible unquoted mark array object _ _).alike
        (readValue_mark visible unquoted mark array object _ _)
  | scalar first others ends endsSpaced rest =>
    exact readValue_scalar_alike first others ends endsSpaced rest fuel other
  | literal enclosed rest =>
    rw [readValue_literal, readValue_literal]
    exact (readString_alike (.literal enclosed rest)).mono (Nat.le_succ _) (Nat.le_succ _)
  | same text =>
    rw [readValue_literal, readValue_literal]
    exact (readString_alike (.same text)).mono (Nat.le_succ _) (Nat.le_succ _)

/-! ### Items -/

/-- What does not close an array at its beginning is its first item. -/
theorem readItems_first {c : Char} {text rest : List Char} (begins : skipSpace text = c :: rest)
    (unclosed : c ≠ ']') (fuel : Nat) :
    readItems (fuel + 1) true text = readItem fuel (c :: rest) := by
  rw [readItems, begins]
  split <;> simp_all

/-- A comma behind an item promises another one. At the end of the text it is missing, and a closing
bracket in its place is a fault. -/
theorem readItems_comma {text rest : List Char} (begins : skipSpace text = ',' :: rest)
    (fuel : Nat) :
    readItems (fuel + 1) false text =
      match skipSpace rest with
      | [] => (.stop ⟨some ⟨.truncated, []⟩, ⟨.malformed, []⟩⟩, none)
      | ']' :: behind => (.stop ⟨some ⟨.malformed, behind⟩, ⟨.malformed, behind⟩⟩, none)
      | behind => readItem fuel behind := by
  rw [readItems, begins]
  rfl

/-- What does not close an array behind a comma is its next item. -/
theorem readItems_comma_item {c : Char} {text rest behind : List Char}
    (begins : skipSpace text = ',' :: rest) (next : skipSpace rest = c :: behind)
    (unclosed : c ≠ ']') (fuel : Nat) :
    readItems (fuel + 1) false text = readItem fuel (c :: behind) := by
  rw [readItems_comma begins, next]
  split <;> simp_all

/-- Behind an item there is a comma or the closing bracket, and any other character is a fault. -/
theorem readItems_other {c : Char} {text rest : List Char} (begins : skipSpace text = c :: rest)
    (unclosed : c ≠ ']') (separate : c ≠ ',') (fuel : Nat) :
    readItems (fuel + 1) false text =
      (.stop ⟨some ⟨.malformed, rest⟩, ⟨.malformed, rest⟩⟩, none) := by
  rw [readItems, begins]
  split <;> simp_all

/-- Behind the commas of two texts that differ in blanks, the items that follow are read alike. The
comma has been read, so that both rests are shorter than their texts. -/
theorem ReadsAlike.items_comma {fuel other : Nat} {text spaced rest restSpaced : List Char}
    (alike : ReadsAlike fuel) (begins : skipSpace text = ',' :: rest)
    (beginsSpaced : skipSpace spaced = ',' :: restSpaced) (respaced : Respaced rest restSpaced)
    (shorter : rest.length < text.length) (shorterSpaced : restSpaced.length < spaced.length)
    (enough : 4 * rest.length + 2 ≤ fuel) (enoughSpaced : 4 * restSpaced.length + 2 ≤ other) :
    Alike Items.blurred text spaced (readItems (fuel + 1) false text)
      (readItems (other + 1) false spaced) := by
  cases respaced.begins with
  | nothing ends endsSpaced =>
    rw [readItems_comma begins, readItems_comma beginsSpaced, ends, endsSpaced]
    exact alike_stuck rfl
  | character c behind behindSpaced next nextSpaced visible less lessSpaced =>
    by_cases closes : c = ']'
    · subst closes
      rw [readItems_comma begins, readItems_comma beginsSpaced, next, nextSpaced]
      exact alike_stuck rfl
    · rw [readItems_comma_item begins next closes,
        readItems_comma_item beginsSpaced nextSpaced closes]
      refine (alike.item visible.respaced ?_ ?_).mono ?_ ?_ <;> simp only [List.length_cons] <;>
        omega

/-- With one round more, the items of an array are read alike. The character behind the blanks
decides whether the array ends, goes on or is broken. -/
theorem ReadsAlike.items_succ {fuel other : Nat} {text spaced : List Char}
    (alike : ReadsAlike fuel) (isFirst : Bool) (respaced : Respaced text spaced)
    (enough : 4 * text.length + 3 ≤ fuel + 1) (enoughSpaced : 4 * spaced.length + 3 ≤ other) :
    Alike Items.blurred text spaced (readItems (fuel + 1) isFirst text)
      (readItems other isFirst spaced) := by
  obtain ⟨other, rfl⟩ : ∃ less, other = less + 1 := ⟨other - 1, by omega⟩
  cases respaced.begins with
  | nothing ends endsSpaced =>
    rw [readItems, readItems, ends, endsSpaced]
    exact alike_stuck rfl
  | character c rest restSpaced begins beginsSpaced visible shorter shorterSpaced =>
    by_cases closes : c = ']'
    · subst closes
      rw [readItems, readItems, begins, beginsSpaced]
      exact ⟨rfl, .some (visible.rest (by decide) (by decide)) shorter shorterSpaced⟩
    cases isFirst with
    | true =>
      rw [readItems_first begins closes, readItems_first beginsSpaced closes]
      refine (alike.item visible.respaced ?_ ?_).mono shorter shorterSpaced
      · simp only [List.length_cons]
        omega
      · simp only [List.length_cons]
        omega
    | false =>
      by_cases separates : c = ','
      · subst separates
        exact alike.items_comma begins beginsSpaced (visible.rest (by decide) (by decide))
          shorter shorterSpaced (by omega) (by omega)
      · rw [readItems_other begins closes separates, readItems_other beginsSpaced closes separates]
        exact alike_stuck rfl

/-- With one round more, an item with the items behind it is read alike. Reading the item leaves
less of both texts, so that the bounds suffice for what follows. -/
theorem ReadsAlike.item_succ {fuel other : Nat} {text spaced : List Char}
    (alike : ReadsAlike fuel) (respaced : Respaced text spaced)
    (enough : 4 * text.length + 2 ≤ fuel + 1) (enoughSpaced : 4 * spaced.length + 2 ≤ other) :
    Alike Items.blurred text spaced (readItem (fuel + 1) text) (readItem other spaced) := by
  obtain ⟨other, rfl⟩ : ∃ less, other = less + 1 := ⟨other - 1, by omega⟩
  have value := alike.value respaced (by omega) (by omega : _ ≤ other)
  rw [readItem, readItem]
  generalize readValue fuel text = read at value
  generalize readValue other spaced = readSpaced at value
  obtain ⟨item, left⟩ := read
  obtain ⟨itemSpaced, leftSpaced⟩ := readSpaced
  obtain ⟨same, leaves⟩ := value
  have same : item.blurred = itemSpaced.blurred := same
  cases leaves with
  | none => exact alike_stuck (by simp only [Items.blurred, same]; rfl)
  | some rest shorter shorterSpaced =>
    have more := alike.items false rest (by omega) (by omega : _ ≤ other)
    refine ⟨?_, more.left.mono shorter.le shorterSpaced.le⟩
    simp only [Items.blurred, same, more.value]

/-! ### Members -/

/-- A quote at the beginning of an object begins the key of its first member. -/
theorem readMembers_key {text rest : List Char} (begins : skipSpace text = '"' :: rest)
    (fuel : Nat) :
    readMembers (fuel + 1) true text = readMember fuel ⟨.malformed, '"' :: rest⟩ rest := by
  rw [readMembers, begins]
  rfl

/-- What neither closes an object nor begins a key is read as a value without a key, which is a
fault that is told where the value has been looked at. -/
theorem readMembers_stray {c : Char} {text rest : List Char} (begins : skipSpace text = c :: rest)
    (unclosed : c ≠ '\x7d') (unquoted : c ≠ '"') (fuel : Nat) :
    readMembers (fuel + 1) true text =
      (.stray ⟨.malformed, rest⟩ (readValue fuel (c :: rest)).1, none) := by
  rw [readMembers, begins]
  split <;> simp_all

/-- A comma behind a member promises another key. At the end of the text it is missing, and any
other character than a quote in its place is a fault. -/
theorem readMembers_comma {text rest : List Char} (begins : skipSpace text = ',' :: rest)
    (fuel : Nat) :
    readMembers (fuel + 1) false text =
      match skipSpace rest with
      | [] => (.stop ⟨some ⟨.truncated, []⟩, ⟨.malformed, []⟩⟩, none)
      | '"' :: behind => readMember fuel ⟨.malformed, ',' :: rest⟩ behind
      | _ :: behind => (.stop ⟨some ⟨.malformed, behind⟩, ⟨.malformed, behind⟩⟩, none) := by
  rw [readMembers, begins]
  rfl

/-- What is no quote behind a comma of an object is a fault, as a key is due there. -/
theorem readMembers_comma_other {c : Char} {text rest behind : List Char}
    (begins : skipSpace text = ',' :: rest) (next : skipSpace rest = c :: behind)
    (unquoted : c ≠ '"') (fuel : Nat) :
    readMembers (fuel + 1) false text =
      (.stop ⟨some ⟨.malformed, behind⟩, ⟨.malformed, behind⟩⟩, none) := by
  rw [readMembers_comma begins, next]
  split <;> simp_all

/-- Behind a member there is a comma or the closing brace, and any other character is a fault. -/
theorem readMembers_other {c : Char} {text rest : List Char} (begins : skipSpace text = c :: rest)
    (unclosed : c ≠ '\x7d') (separate : c ≠ ',') (fuel : Nat) :
    readMembers (fuel + 1) false text =
      (.stop ⟨some ⟨.malformed, rest⟩, ⟨.malformed, rest⟩⟩, none) := by
  rw [readMembers, begins]
  split <;> simp_all

/-- Behind the commas of two texts that differ in blanks, the members that follow are read alike.
The comma has been read, so that both rests are shorter than their texts. -/
theorem ReadsAlike.members_comma {fuel other : Nat}
    {text spaced rest restSpaced : List Char} (alike : ReadsAlike fuel)
    (begins : skipSpace text = ',' :: rest) (beginsSpaced : skipSpace spaced = ',' :: restSpaced)
    (respaced : Respaced rest restSpaced) (shorter : rest.length < text.length)
    (shorterSpaced : restSpaced.length < spaced.length) (enough : 4 * rest.length + 2 ≤ fuel)
    (enoughSpaced : 4 * restSpaced.length + 2 ≤ other) :
    Alike Members.blurred text spaced (readMembers (fuel + 1) false text)
      (readMembers (other + 1) false spaced) := by
  cases respaced.begins with
  | nothing ends endsSpaced =>
    rw [readMembers_comma begins, readMembers_comma beginsSpaced, ends, endsSpaced]
    exact alike_stuck rfl
  | character c behind behindSpaced next nextSpaced visible less lessSpaced =>
    by_cases quote : c = '"'
    · subst quote
      rw [readMembers_comma begins, readMembers_comma beginsSpaced, next, nextSpaced]
      exact (alike.member _ _ visible (by omega) (by omega)).mono (by omega) (by omega)
    · rw [readMembers_comma_other begins next quote,
        readMembers_comma_other beginsSpaced nextSpaced quote]
      exact alike_stuck rfl

/-- With one round more, the members of an object are read alike. The character behind the blanks
decides whether the object ends, goes on or is broken. -/
theorem ReadsAlike.members_succ {fuel other : Nat} {text spaced : List Char}
    (alike : ReadsAlike fuel) (isFirst : Bool) (respaced : Respaced text spaced)
    (enough : 4 * text.length + 3 ≤ fuel + 1) (enoughSpaced : 4 * spaced.length + 3 ≤ other) :
    Alike Members.blurred text spaced (readMembers (fuel + 1) isFirst text)
      (readMembers other isFirst spaced) := by
  obtain ⟨other, rfl⟩ : ∃ less, other = less + 1 := ⟨other - 1, by omega⟩
  cases respaced.begins with
  | nothing ends endsSpaced =>
    rw [readMembers, readMembers, ends, endsSpaced]
    exact alike_stuck rfl
  | character c rest restSpaced begins beginsSpaced visible shorter shorterSpaced =>
    by_cases closes : c = '\x7d'
    · subst closes
      rw [readMembers, readMembers, begins, beginsSpaced]
      exact ⟨rfl, .some (visible.rest (by decide) (by decide)) shorter shorterSpaced⟩
    cases isFirst with
    | true =>
      by_cases quote : c = '"'
      · subst quote
        rw [readMembers_key begins, readMembers_key beginsSpaced]
        exact (alike.member _ _ visible (by omega) (by omega)).mono shorter.le shorterSpaced.le
      · rw [readMembers_stray begins closes quote, readMembers_stray beginsSpaced closes quote]
        have value := alike.value visible.respaced
          (by simp only [List.length_cons]; omega)
          (by simp only [List.length_cons]; omega : _ ≤ other)
        exact alike_stuck (by simp only [Members.blurred, value.value])
    | false =>
      by_cases separates : c = ','
      · subst separates
        exact alike.members_comma begins beginsSpaced
          (visible.rest (by decide) (by decide)) shorter shorterSpaced (by omega) (by omega)
      · rw [readMembers_other begins closes separates,
          readMembers_other beginsSpaced closes separates]
        exact alike_stuck rfl

/-- Read what is behind the key of a member: the colon, the value and the members behind it. -/
def readEntry (fuel : Nat) (surplus : Fault) (key : Document) (rest : List Char) :
    Members × Option (List Char) :=
  match skipSpace rest with
  | ':' :: body =>
    let misfit : Fault := ⟨.malformed, (skipSpace body).tail⟩
    match readValue fuel body with
    | (value, none) =>
      (.member surplus key misfit value (.stop ⟨some misfit, misfit⟩), none)
    | (value, some behind) =>
      let (more, left) := readMembers fuel false behind
      (.member surplus key misfit value more, left)
  | [] =>
    (.member surplus key surplus (broken .truncated []).1 (.stop ⟨some surplus, surplus⟩), none)
  | _ :: behind =>
    (.member surplus key surplus (broken .malformed behind).1
      (.stop ⟨some surplus, surplus⟩), none)

/-- A member is its key and what is behind the key. An object ends with a key that cannot be
read. -/
theorem readMember_succ (fuel : Nat) (surplus : Fault) (text : List Char) :
    readMember (fuel + 1) surplus text =
      match readString text with
      | (key, none) =>
        (.member surplus key surplus key (.stop ⟨some surplus, surplus⟩), none)
      | (key, some rest) => readEntry fuel surplus key rest := by
  rw [readMember]
  rfl

/-- A key without a colon behind it has no value, and the object ends with it. -/
theorem readEntry_other {c : Char} {rest behind : List Char} (begins : skipSpace rest = c :: behind)
    (unparted : c ≠ ':') (fuel : Nat) (surplus : Fault) (key : Document) :
    readEntry fuel surplus key rest =
      (.member surplus key surplus (broken .malformed behind).1
        (.stop ⟨some surplus, surplus⟩), none) := by
  rw [readEntry, begins]
  split <;> simp_all

/-- Behind two keys that are the same up to faults, the colon, the value and the members behind it
are read alike. -/
theorem ReadsAlike.entry {fuel other : Nat} {text spaced : List Char} {key keySpaced : Document}
    (alike : ReadsAlike fuel) (same : key.blurred = keySpaced.blurred)
    (surplus surplusSpaced : Fault) (respaced : Respaced text spaced)
    (enough : 4 * text.length + 1 ≤ fuel) (enoughSpaced : 4 * spaced.length + 1 ≤ other) :
    Alike Members.blurred text spaced (readEntry fuel surplus key text)
      (readEntry other surplusSpaced keySpaced spaced) := by
  cases respaced.begins with
  | nothing ends endsSpaced =>
    rw [readEntry, readEntry, ends, endsSpaced]
    exact alike_stuck (by simp only [Members.blurred, same]; rfl)
  | character c rest restSpaced begins beginsSpaced visible shorter shorterSpaced =>
    by_cases parted : c = ':'
    · subst parted
      have value := alike.value (visible.rest (by decide) (by decide)) (by omega)
        (by omega : _ ≤ other)
      rw [readEntry, readEntry, begins, beginsSpaced]
      simp only
      generalize readValue fuel rest = read at value
      generalize readValue other restSpaced = readSpaced at value
      obtain ⟨held, left⟩ := read
      obtain ⟨heldSpaced, leftSpaced⟩ := readSpaced
      obtain ⟨sameHeld, leaves⟩ := value
      have sameHeld : held.blurred = heldSpaced.blurred := sameHeld
      cases leaves with
      | none => exact alike_stuck (by simp only [Members.blurred, same, sameHeld]; rfl)
      | some behind less lessSpaced =>
        have more := alike.members false behind (by omega) (by omega : _ ≤ other)
        refine ⟨?_, more.left.mono (by omega) (by omega)⟩
        simp only [Members.blurred, same, sameHeld, more.value]
    · rw [readEntry_other begins parted, readEntry_other beginsSpaced parted]
      exact alike_stuck (by simp only [Members.blurred, same]; rfl)

/-- With one round more, a member with the members behind it is read alike. The keys are literals,
which are the same in both texts. -/
theorem ReadsAlike.member_succ {fuel other : Nat} {text spaced : List Char}
    (alike : ReadsAlike fuel) (surplus surplusSpaced : Fault)
    (visible : Visible ('"' :: text) ('"' :: spaced)) (enough : 4 * text.length + 2 ≤ fuel + 1)
    (enoughSpaced : 4 * spaced.length + 2 ≤ other) :
    Alike Members.blurred text spaced (readMember (fuel + 1) surplus text)
      (readMember other surplusSpaced spaced) := by
  obtain ⟨other, rfl⟩ : ∃ less, other = less + 1 := ⟨other - 1, by omega⟩
  have name := readString_alike visible
  rw [readMember_succ, readMember_succ]
  generalize readString text = read at name
  generalize readString spaced = readSpaced at name
  obtain ⟨key, left⟩ := read
  obtain ⟨keySpaced, leftSpaced⟩ := readSpaced
  obtain ⟨same, leaves⟩ := name
  have same : key.blurred = keySpaced.blurred := same
  cases leaves with
  | none => exact alike_stuck (by simp only [Members.blurred, same]; rfl)
  | some rest shorter shorterSpaced =>
    exact (alike.entry same surplus surplusSpaced rest (by omega) (by omega)).mono shorter.le
      shorterSpaced.le

/-! ### Whole documents -/

/-- Texts that differ in blanks are read alike, by any bounds that suffice. -/
theorem readsAlike (fuel : Nat) : ReadsAlike fuel := by
  induction fuel with
  | zero => constructor <;> intros <;> omega
  | succ fuel inductionHypothesis =>
    exact ⟨inductionHypothesis.value_succ, inductionHypothesis.items_succ,
      inductionHypothesis.item_succ, inductionHypothesis.members_succ,
      inductionHypothesis.member_succ⟩

/-- Texts that differ in blanks are read to the same document up to its faults. -/
theorem Document.read_alike {text spaced : List Char} (respaced : Respaced text spaced) :
    Alike Document.blurred text spaced (Document.read text) (Document.read spaced) :=
  (readsAlike _).value respaced (by omega) (by omega)

/-- Only blanks stand in one of two such rests when only blanks stand in the other. Texts that
differ in blanks only begin with the same visible character, or have none. -/
theorem Leaves.skipSpace_eq_nil_iff {text spaced : List Char}
    {left leftSpaced : Option (List Char)} (leaves : Leaves text spaced left leftSpaced) :
    skipSpace (left.getD []) = [] ↔ skipSpace (leftSpaced.getD []) = [] := by
  cases leaves with
  | none => rfl
  | some respaced _ _ =>
    cases respaced.begins with
    | nothing ends endsSpaced => exact iff_of_true ends endsSpaced
    | character c rest restSpaced begins beginsSpaced _ _ _ =>
      exact iff_of_false (by simp [begins]) (by simp [beginsSpaced])

/-- A text is accepted when the decoder accepts the document at its beginning and nothing but blanks
is behind it. The value is then that of the document. -/
theorem toOption_decodeText {α : Type} (decode : Document → Decoded α) (text : List Char) :
    (decodeText decode text).toOption =
      if skipSpace ((Document.read text).2.getD []) = [] then
        (decode (Document.read text).1).toOption
      else none := by
  unfold decodeText
  simp only [toOption_bind]
  cases behind : skipSpace ((Document.read text).2.getD []) with
  | nil =>
    rw [if_pos rfl]
    cases decode (Document.read text).1 <;> rfl
  | cons c unread =>
    rw [if_neg (List.cons_ne_nil c unread)]
    cases decode (Document.read text).1 <;> rfl

/-- Of texts that differ in blanks, a decoder that is blind to faults accepts both, with the same
value, or neither. -/
theorem decodeText_respaced {α : Type} {decode : Document → Decoded α} (blind : Blind decode)
    {text spaced : List Char} (respaced : Respaced text spaced) :
    (decodeText decode text).toOption = (decodeText decode spaced).toOption := by
  obtain ⟨same, leaves⟩ := Document.read_alike respaced
  have decoded : (decode (Document.read text).1).toOption =
      (decode (Document.read spaced).1).toOption := by
    rw [← blind, same, blind]
  rw [toOption_decodeText, toOption_decodeText, decoded]
  simp only [leaves.skipSpace_eq_nil_iff]

/-- What a reader makes of a text does not depend on the blanks in it: of texts that differ in
blanks outside of literals and scalars, it accepts both, with the same value, or neither. This is
all that is asked of a reader of JSON where comments are blanked out. -/
def BlindToBlanks {α : Type} (read : List Char → Option α) : Prop :=
  ∀ {text spaced : List Char}, Respaced text spaced → read text = read spaced

/-- The reading of documents is blind to blanks, whichever decoder that is blind to faults is
given what has been read. -/
theorem blindToBlanks_decodeText {α : Type} {decode : Document → Decoded α}
    (blind : Blind decode) : BlindToBlanks fun text => (decodeText decode text).toOption :=
  fun respaced => decodeText_respaced blind respaced

end Parlance.Json
