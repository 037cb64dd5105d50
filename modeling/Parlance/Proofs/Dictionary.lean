import Parlance.Dictionary

/-!
# Look-ups in dictionaries

What a dictionary answers after storing and forgetting, and which values it holds.
These are the laws of a finite map; that storing also keeps the keys in order is part
of the dictionary itself. The order enters here only where an entry of the list is to
be the answer under its key, since no key is there twice, and where dictionaries that
answer alike are to be the same.
-/

namespace Parlance.Dictionary

variable {α : Type}

/-- The first entry answers for its key, and the others for all other keys. -/
theorem lookup_cons_eq (key held : String) (stored : α) (rest : List (String × α)) :
    ((held, stored) :: rest).lookup key = if key = held then some stored else rest.lookup key := by
  by_cases same : key = held
  · simp [same]
  · have test : (key == held) = false := beq_eq_false_iff_ne.mpr same
    simp [List.lookup_cons, test, same]

/-- An entry that is placed is found under its key, and others as before. By induction over the
entries, which are in the order of their keys. -/
theorem lookup_place (key other : String) (value : α) (entries : List (String × α)) :
    (place key value entries).lookup other =
      if other = key then some value else entries.lookup other := by
  induction entries with
  | nil => simp only [place, lookup_cons_eq]
  | cons head rest inductionHypothesis =>
    obtain ⟨held, stored⟩ := head
    simp only [place]
    split
    · rename_i equal
      subst equal
      by_cases same : other = key <;> simp [lookup_cons_eq, same]
    · rename_i different
      split
      · simp only [lookup_cons_eq]
      · by_cases same : other = held
        · have changed : other ≠ key := fun equal => different (equal ▸ same)
          simp [← same, changed]
        · simp [lookup_cons_eq, same, inductionHypothesis]

/-- What is stored is found, and nothing else changes. -/
theorem find?_insert (dictionary : Dictionary α) (key other : String) (value : α) :
    (dictionary.insert key value).find? other =
      if other = key then some value else dictionary.find? other :=
  lookup_place key other value dictionary.entries

/-- Entries of one key that are left out are not found, and others as before. By induction over the
entries, however often the key is among them. -/
theorem lookup_filter_ne (key other : String) (entries : List (String × α)) :
    (entries.filter (fun entry => entry.1 ≠ key)).lookup other =
      if other = key then none else entries.lookup other := by
  induction entries with
  | nil => simp
  | cons head rest inductionHypothesis =>
    obtain ⟨held, stored⟩ := head
    by_cases removed : held = key
    · rw [List.filter_cons_of_neg (by simp [removed]), inductionHypothesis, lookup_cons_eq, removed]
      by_cases same : other = key <;> simp [same]
    · rw [List.filter_cons_of_pos (by simp [removed]), lookup_cons_eq, lookup_cons_eq,
        inductionHypothesis]
      by_cases same : other = held
      · simp [same, removed]
      · simp [same]

/-- What is forgotten is not found, and nothing else changes. -/
theorem find?_erase (dictionary : Dictionary α) (key other : String) :
    (dictionary.erase key).find? other =
      if other = key then none else dictionary.find? other :=
  lookup_filter_ne key other dictionary.entries

/-- An entry of the list is the answer under its key: the keys increase, so no other
entry has it. -/
theorem lookup_eq_some_iff_mem {entries : List (String × α)}
    (sorted : entries.Pairwise (fun first second => first.1 < second.1)) (key : String)
    (value : α) : entries.lookup key = some value ↔ (key, value) ∈ entries := by
  induction entries with
  | nil => simp
  | cons head rest inductionHypothesis =>
    obtain ⟨held, stored⟩ := head
    obtain ⟨below, sortedRest⟩ := List.pairwise_cons.mp sorted
    rw [lookup_cons_eq, List.mem_cons]
    by_cases same : key = held
    · subst same
      have absent : (key, value) ∉ rest := fun member => String.lt_irrefl key (below _ member)
      simp [absent, eq_comm]
    · simp [same, inductionHypothesis sortedRest]

/-- The stored values are those found under some key. -/
theorem mem_values_iff (dictionary : Dictionary α) (value : α) :
    value ∈ dictionary.values ↔ ∃ key, dictionary.find? key = some value := by
  simp [values, find?, lookup_eq_some_iff_mem dictionary.sorted]

/-- The keys are those under which a value is found. -/
theorem mem_keys_iff (dictionary : Dictionary α) (key : String) :
    key ∈ dictionary.keys ↔ (dictionary.find? key).isSome := by
  rw [keys, List.mem_map, Option.isSome_iff_exists]
  constructor
  · rintro ⟨⟨_, value⟩, member, rfl⟩
    exact ⟨value, (lookup_eq_some_iff_mem dictionary.sorted _ _).mpr member⟩
  · rintro ⟨value, found⟩
    exact ⟨(key, value), (lookup_eq_some_iff_mem dictionary.sorted _ _).mp found, rfl⟩

/-- No key is there twice. -/
theorem nodup_keys (dictionary : Dictionary α) : dictionary.keys.Nodup := by
  rw [keys, List.Nodup, List.pairwise_map]
  refine dictionary.sorted.imp fun below same => ?_
  rw [same] at below
  exact String.lt_irrefl _ below

/-- Dictionaries that answer every look-up alike are the same: they have the same entries,
none of them twice, and these can be in order in only one way. -/
theorem eq_of_find? {first second : Dictionary α}
    (alike : ∀ key, first.find? key = second.find? key) : first = second := by
  have distinct (dictionary : Dictionary α) : dictionary.entries.Nodup := by
    refine dictionary.sorted.imp fun below same => ?_
    rw [same] at below
    exact String.lt_irrefl _ below
  have permuted : first.entries.Perm second.entries := by
    rw [List.perm_ext_iff_of_nodup (distinct first) (distinct second)]
    rintro ⟨key, value⟩
    rw [← lookup_eq_some_iff_mem first.sorted, ← lookup_eq_some_iff_mem second.sorted]
    exact iff_of_eq (congrArg (· = some value) (alike key))
  have same : first.entries = second.entries :=
    permuted.eq_of_pairwise
      (fun _ _ _ _ below above => absurd above (String.lt_asymm below)) first.sorted second.sorted
  cases first
  cases second
  cases same
  rfl

/-- Of two values stored under one key the later stays. -/
theorem insert_insert (dictionary : Dictionary α) (key : String) (value later : α) :
    (dictionary.insert key value).insert key later = dictionary.insert key later := by
  refine eq_of_find? fun other => ?_
  simp only [find?_insert]
  split <;> rfl

/-- Values under different keys can be stored in either order. Dictionaries that answer alike are
the same, since their entries are in the order of the keys. -/
theorem insert_comm (dictionary : Dictionary α) {key other : String} (different : key ≠ other)
    (value second : α) :
    (dictionary.insert key value).insert other second =
      (dictionary.insert other second).insert key value := by
  refine eq_of_find? fun asked => ?_
  simp only [find?_insert]
  split
  · rename_i own
    rw [if_neg fun same => different (same.symm.trans own)]
  · rfl

/-- Every value changed by a function, under the same keys. -/
def map {β : Type} (change : α → β) (dictionary : Dictionary α) : Dictionary β where
  entries := dictionary.entries.map fun entry => (entry.1, change entry.2)
  sorted := List.pairwise_map.mpr dictionary.sorted

/-- A changed value is found under the key of the value. Keys are not changed, so the same entry is
found. -/
@[simp] theorem find?_map {β : Type} (change : α → β) (dictionary : Dictionary α) (key : String) :
    (dictionary.map change).find? key = (dictionary.find? key).map change := by
  have found (entries : List (String × α)) :
      (entries.map fun entry => (entry.1, change entry.2)).lookup key =
        (entries.lookup key).map change := by
    induction entries with
    | nil => rfl
    | cons head rest inductionHypothesis =>
      obtain ⟨held, stored⟩ := head
      rw [List.map_cons, lookup_cons_eq, lookup_cons_eq, inductionHypothesis]
      split <;> rfl
  exact found dictionary.entries

/-- Changing every value of a dictionary changes the list of its values, in the same order. -/
@[simp] theorem values_map {β : Type} (change : α → β) (dictionary : Dictionary α) :
    (dictionary.map change).values = dictionary.values.map change := by
  simp [values, map]

end Parlance.Dictionary
