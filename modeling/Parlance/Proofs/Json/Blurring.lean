import Parlance.Json.Decoder

/-!
# Documents up to their faults

A document holds the faults that a reader meets in it, and a fault tells what of the text was
still unread. A decoder passes a fault on as its refusal. What it gives when it does not refuse
depends on where there are faults, but not on what they tell: a decoder is blind to them. All
decoders that are put together from blind ones are blind, so every decoder of records is.
-/

namespace Parlance.Json

/-! ## Blurring -/

/-- The fault that stands for every fault. -/
def Fault.blurred : Fault := ⟨.malformed, []⟩

/-- The same end, without telling its faults apart. -/
def Stop.blurred (stop : Stop) : Stop := ⟨stop.next.map fun _ => .blurred, .blurred⟩

mutual

/-- The same document, without telling its faults apart. -/
def Document.blurred : Document → Document
  | .null => .null
  | .boolean value => .boolean value
  | .integer value => .integer value
  | .fraction => .fraction
  | .text value => .text value
  | .array items => .array items.blurred
  | .object members => .object members.blurred
  | .unusable _ skipping => .unusable .blurred (skipping.map fun _ => .blurred)

/-- The same items, without telling their faults apart. -/
def Items.blurred : Items → Items
  | .stop ending => .stop ending.blurred
  | .item _ value more => .item .blurred value.blurred more.blurred

/-- The same members, without telling their faults apart. -/
def Members.blurred : Members → Members
  | .stop ending => .stop ending.blurred
  | .stray _ value => .stray .blurred value.blurred
  | .member _ key _ value more =>
    .member .blurred key.blurred .blurred value.blurred more.blurred

end

/-- The decoder gives the same value, or refuses, whatever the faults in the document tell. -/
def Blind {α : Type} (decode : Document → Decoded α) : Prop :=
  ∀ document, (decode document.blurred).toOption = (decode document).toOption

/-- A field is stored the same, or refused, whatever the faults in its document tell. -/
def Field.Blind {σ : Type} (field : Field σ) : Prop :=
  ∀ record misfit other document,
    (field.store record misfit document.blurred).toOption =
      (field.store record other document).toOption

/-! ## Results up to their refusals -/

section Results

variable {α β : Type}

/-- Two steps give a value together when the first one gives one and the second one gives one for
it. -/
@[simp]
theorem toOption_bind (result : Decoded α) (next : α → Decoded β) :
    (result >>= next).toOption = result.toOption.bind fun value => (next value).toOption := by
  cases result <;> rfl

/-- A change of values changes no refusal. -/
@[simp]
theorem toOption_map (f : α → β) (result : Decoded α) :
    (f <$> result).toOption = result.toOption.map f := by
  cases result <;> rfl

/-- Whether the end of an array or an object is accepted does not depend on what its faults tell. -/
@[simp]
theorem toOption_finish_blurred (ending : Stop) (value : α) :
    (ending.blurred.finish value).toOption = (ending.finish value).toOption := by
  unfold Stop.finish Stop.blurred
  cases ending.next <;> rfl

end Results

/-! ## Decoders of single values -/

section Values

variable {α : Type}

/-- What refuses every document does so whatever the faults in it tell. -/
theorem blind_refuse : Blind (Document.refuse : Document → Decoded α) := by
  intro document
  cases document <;> rfl

/-- Whether a document is a text, and which, does not depend on its faults. -/
@[simp]
theorem blind_asText : Blind Document.asText := by
  intro document
  cases document <;> rfl

/-- Whether a document is a truth value, and which, does not depend on its faults. -/
@[simp]
theorem blind_asBoolean : Blind Document.asBoolean := by
  intro document
  cases document <;> rfl

/-- Whether a document is a number between two bounds, and which, does not depend on its faults. -/
@[simp]
theorem blind_asInteger (least greatest : Int) : Blind (Document.asInteger least greatest) := by
  intro document
  cases document <;> rfl

/-- Whether a document is a single character, and which, does not depend on its faults. -/
@[simp]
theorem blind_asCharacter : Blind Document.asCharacter := by
  intro document
  cases document <;> rfl

/-- A decoder that is blind to faults stays so when it also accepts that there is no value. -/
@[simp]
theorem blind_asOption {decode : Document → Decoded α} (blind : Blind decode) :
    Blind (Document.asOption decode) := by
  intro document
  have present : (some <$> decode document.blurred).toOption =
      (some <$> decode document).toOption := by
    rw [toOption_map, toOption_map, blind document]
  cases document with
  | null => rfl
  | _ => exact present

mutual

/-- Whether a document can be passed over does not depend on what its faults tell. The proof follows
the document down to its items and members. -/
theorem Document.toOption_skip_blurred :
    (document : Document) → document.blurred.skip.toOption = document.skip.toOption
  | .null | .boolean _ | .integer _ | .fraction | .text _ => rfl
  | .array items => by
    rw [Document.blurred, Document.skip, Document.skip]
    exact items.toOption_skip_blurred
  | .object members => by
    rw [Document.blurred, Document.skip, Document.skip]
    exact members.toOption_skip_blurred
  | .unusable _ skipping => by cases skipping <;> rfl

/-- Whether the items of an array can be passed over does not depend on what their faults tell. -/
theorem Items.toOption_skip_blurred :
    (items : Items) → items.blurred.skip.toOption = items.skip.toOption
  | .stop ending => toOption_finish_blurred ending ()
  | .item _ value more => by
    simp [Items.blurred, Items.skip, value.toOption_skip_blurred, more.toOption_skip_blurred]

/-- Whether the members of an object can be passed over does not depend on what their faults
tell. -/
theorem Members.toOption_skip_blurred :
    (members : Members) → members.blurred.skip.toOption = members.skip.toOption
  | .stop ending => toOption_finish_blurred ending ()
  | .stray _ _ => rfl
  | .member _ key _ value more => by
    simp [Members.blurred, Members.skip, key.toOption_skip_blurred,
      value.toOption_skip_blurred, more.toOption_skip_blurred]

end

/-- A decoder that is blind to faults finds the same values in the items of an array, one by one, or
refuses one of them. -/
theorem Items.toOption_decode_blurred {decode : Document → Decoded α} (blind : Blind decode) :
    (items : Items) → (items.blurred.decode decode).toOption = (items.decode decode).toOption
  | .stop ending => toOption_finish_blurred ending []
  | .item _ value more => by
    simp [Items.blurred, Items.decode, blind value, more.toOption_decode_blurred blind]

/-- A decoder that is blind to faults finds the same values under the keys of an object, or refuses
one of them. The keys are decoded in front of their values. -/
theorem Members.toOption_decode_blurred {decode : Document → Decoded α} (blind : Blind decode)
    (sofar : Dictionary α) : (members : Members) →
    (members.blurred.decode decode sofar).toOption = (members.decode decode sofar).toOption
  | .stop ending => toOption_finish_blurred ending sofar
  | .stray _ _ => rfl
  | .member _ key _ value more => by
    simp [Members.blurred, Members.decode, blind_asText key, blind value,
      fun sofar => more.toOption_decode_blurred blind sofar]

/-- A decoder of lists is blind to faults when the decoder of its items is. -/
@[simp]
theorem blind_asList {decode : Document → Decoded α} (blind : Blind decode) :
    Blind (Document.asList decode) := by
  intro document
  cases document with
  | array items => exact items.toOption_decode_blurred blind
  | _ => rfl

/-- A decoder of dictionaries is blind to faults when the decoder of its values is. -/
@[simp]
theorem blind_asDictionary {decode : Document → Decoded α} (blind : Blind decode) :
    Blind (Document.asDictionary decode) := by
  intro document
  cases document with
  | object members => exact members.toOption_decode_blurred blind .empty
  | _ => rfl

end Values

/-! ## Decoders of records -/

section Records

variable {σ : Type}

/-- A field that is decoded and then stored is blind to faults when its decoder is. -/
@[simp]
theorem blind_plain {α : Type} {decode : Document → Decoded α} (blind : Blind decode)
    (name : String) (set : σ → α → σ) : (Field.plain name decode set).Blind := by
  intro record misfit other document
  change (set record <$> decode document.blurred).toOption =
    (set record <$> decode document).toOption
  rw [toOption_map, toOption_map, blind document]

/-- A record is filled alike from the members of an object, or refused. Unknown members are passed
over, a member that comes twice is refused in front of its value, and all others are stored by their
fields. -/
theorem Members.toOption_record_blurred {fields : List (Field σ)}
    (blind : ∀ field ∈ fields, field.Blind) (seen : List String) (record : σ) :
    (members : Members) → (members.blurred.record fields seen record).toOption =
      (members.record fields seen record).toOption
  | .stop ending => toOption_finish_blurred ending (record, seen)
  | .stray _ _ => rfl
  | .member _ key misfit value more => by
    have later := fun seen record => more.toOption_record_blurred blind seen record
    simp only [Members.blurred, Members.record, toOption_bind, blind_asText key]
    congr 1
    funext name
    cases found : fields.find? fun field => field.name = name with
    | none => simp [value.toOption_skip_blurred, later]
    | some field =>
      have stored := blind field (List.mem_of_find?_eq_some found) record .blurred misfit value
      by_cases twice : seen.contains name = true
      · -- Both are refused before the value is read.
        simp only [if_pos twice]
        rfl
      · simp only [if_neg twice]
        simp [stored, later]

/-- A record is filled alike from the items of an array, taken for its fields in order, or
refused. -/
theorem Items.toOption_record_blurred (seen : List String) (record : σ) :
    (fields : List (Field σ)) → (blind : ∀ field ∈ fields, field.Blind) → (items : Items) →
    (Items.record seen record fields items.blurred).toOption =
      (Items.record seen record fields items).toOption
  | [], _, .stop ⟨next, _⟩ => by cases next <;> rfl
  | _ :: _, _, .stop ending => toOption_finish_blurred ending (record, seen)
  | [], _, .item _ _ _ => rfl
  | field :: fields, blind, .item misfit value more => by
    obtain ⟨first, others⟩ := List.forall_mem_cons.mp blind
    have stored := first record .blurred misfit value
    have later := fun record =>
      Items.toOption_record_blurred (field.name :: seen) record fields others more
    simp [Items.blurred, Items.record, stored, later]

/-- A decoder of records is blind when its fields are. A record can be written with names or as a
list of its fields; in both, the fields that are read are blurred alike. -/
theorem blind_asRecord {fields : List (Field σ)} (blind : ∀ field ∈ fields, field.Blind)
    (required : List String) (initial : σ) :
    Blind (Document.asRecord fields required initial) := by
  intro document
  have members := fun members =>
    Members.toOption_record_blurred blind [] initial members
  have items := fun items => Items.toOption_record_blurred [] initial fields blind items
  cases document with
  | unusable => rfl
  | _ => simp [Document.asRecord, Document.blurred, Document.refuse, members, items]

end Records

end Parlance.Json
