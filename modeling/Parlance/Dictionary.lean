/-!
# Dictionaries

A finite map from texts to values, kept as a list of entries in strictly
increasing order of their keys. The order makes the representation canonical: two
dictionaries that answer every look-up alike are the same list, whatever the
order in which their entries arrived. Storing replaces the value of a key that is
already there.
-/

namespace Parlance

/-- Entries in strictly increasing order of their keys. -/
structure Dictionary (α : Type) where
  entries : List (String × α)
  sorted : entries.Pairwise (fun first second => first.1 < second.1)
deriving DecidableEq

namespace Dictionary

variable {α : Type}

/-- The dictionary without entries. -/
def empty : Dictionary α := ⟨[], List.Pairwise.nil⟩

instance : Inhabited (Dictionary α) := ⟨empty⟩

instance [Repr α] : Repr (Dictionary α) := ⟨fun dictionary => reprPrec dictionary.entries⟩

/-- The value stored under `key`. -/
def find? (dictionary : Dictionary α) (key : String) : Option α :=
  dictionary.entries.lookup key

/-- Whether something is stored under `key`. -/
def contains (dictionary : Dictionary α) (key : String) : Bool :=
  (dictionary.find? key).isSome

/-- The stored keys in increasing order. -/
def keys (dictionary : Dictionary α) : List String := dictionary.entries.map (·.1)

/-- The stored values in the order of their keys. -/
def values (dictionary : Dictionary α) : List α := dictionary.entries.map (·.2)

/-- The number of stored keys. -/
def size (dictionary : Dictionary α) : Nat := dictionary.entries.length

/-- Put an entry in its place among sorted entries, replacing one of equal key. -/
def place (key : String) (value : α) : List (String × α) → List (String × α)
  | [] => [(key, value)]
  | (other, held) :: rest =>
    if key = other then (key, value) :: rest
    else if key < other then (key, value) :: (other, held) :: rest
    else (other, held) :: place key value rest

/-- Placing an entry adds no key but its own. -/
theorem mem_place {key : String} {value : α} {entries : List (String × α)}
    {entry : String × α} (member : entry ∈ place key value entries) :
    entry = (key, value) ∨ entry ∈ entries := by
  induction entries with
  | nil => simpa [place] using member
  | cons head rest inductionHypothesis =>
    obtain ⟨other, held⟩ := head
    simp only [place] at member
    split at member
    · rcases List.mem_cons.mp member with same | inside
      · exact Or.inl same
      · exact Or.inr (List.mem_cons_of_mem _ inside)
    · split at member
      · rcases List.mem_cons.mp member with same | inside
        · exact Or.inl same
        · exact Or.inr inside
      · rcases List.mem_cons.mp member with same | inside
        · exact Or.inr (same ▸ List.mem_cons_self)
        · exact (inductionHypothesis inside).imp id (List.mem_cons_of_mem _)

/-- Placing an entry keeps the keys in strictly increasing order: a smaller key
goes in front of a head that is below all the rest, and a larger one goes into
the rest, all of which stays above the head. -/
theorem place_sorted (key : String) (value : α) {entries : List (String × α)}
    (sorted : entries.Pairwise (fun first second => first.1 < second.1)) :
    (place key value entries).Pairwise (fun first second => first.1 < second.1) := by
  induction entries with
  | nil => simp [place]
  | cons head rest inductionHypothesis =>
    obtain ⟨other, held⟩ := head
    obtain ⟨below, sortedRest⟩ := List.pairwise_cons.mp sorted
    simp only [place]
    split
    · rename_i same
      exact List.pairwise_cons.mpr ⟨fun entry inside => same ▸ below entry inside, sortedRest⟩
    · rename_i different
      split
      · rename_i smaller
        refine List.pairwise_cons.mpr ⟨fun entry inside => ?_, sorted⟩
        rcases List.mem_cons.mp inside with rfl | inside
        · exact smaller
        · exact String.lt_trans smaller (below entry inside)
      · rename_i notSmaller
        refine List.pairwise_cons.mpr ⟨fun entry inside => ?_, inductionHypothesis sortedRest⟩
        rcases mem_place inside with rfl | inside
        · refine Decidable.byContradiction fun notLarger => different ?_
          exact String.le_antisymm (String.not_lt.mp notLarger) (String.not_lt.mp notSmaller)
        · exact below entry inside

/-- Store `value` under `key`. -/
def insert (dictionary : Dictionary α) (key : String) (value : α) : Dictionary α :=
  ⟨place key value dictionary.entries, place_sorted key value dictionary.sorted⟩

/-- Forget what is stored under `key`. -/
def erase (dictionary : Dictionary α) (key : String) : Dictionary α :=
  ⟨dictionary.entries.filter (fun entry => entry.1 ≠ key), dictionary.sorted.filter _⟩

/-- Store the entries in turn; of two under one key the later stays. -/
def ofList (entries : List (String × α)) : Dictionary α :=
  entries.foldl (fun dictionary entry => dictionary.insert entry.1 entry.2) empty

end Dictionary

end Parlance
