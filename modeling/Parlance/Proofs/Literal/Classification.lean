import Parlance.Proofs.Literal.Decimals
import Parlance.Tagging

/-!
# Classes and values

The class of a text is found by one set of functions and the value of a literal by another: a
tagger tests the form, a reader takes the text apart. They agree. What the standard chain takes for
a boolean, a character or a floating number is read as one, an integer is read or overflows, and a
string is read or has a faulty escape sequence in it. A text that can be read at all has a class.

A chain of tests is the search for the first class whose test is passed, so that its order matters
for none of this: a text passes the test of its class, and it has a class when it passes some test.
What remains is one statement for each kind of literal, of the test and the reader. It is deep for
floating numbers only, whose reader goes by a grammar of its own.
-/

namespace Parlance

/-! ## Tests and readers -/

namespace Literal

variable {text : String}

/-- An outcome that is no error is a value. -/
theorem isOk_iff {ε α : Type} {outcome : Except ε α} :
    outcome.isOk = true ↔ ∃ value, outcome = .ok value := by
  cases outcome with
  | error problem => simp [Except.isOk, Except.toBool]
  | ok value => simp [Except.isOk, Except.toBool]

/-- The form of a floating literal is that of the texts that are read as one. What has the form is
accepted by the reader of decimals, whatever the convention. -/
theorem isFloating_iff {scientific : Bool} :
    isFloating scientific text = true ↔ ∃ bits, floating scientific text = .ok bits := by
  rw [isFloating, floating]
  cases shape : floatingShape? text.toList with
  | none => simp
  | some hasExponent =>
    obtain ⟨decimal, read⟩ := Option.isSome_iff_exists.mp
      (decimal?_isSome_iff.mpr (isDecimal_of_shape shape))
    rw [read]
    cases hasExponent <;> cases scientific <;> simp

/-- The form of an integer literal is that of the texts that are read as one or overflow. The form
gives a number that is held in 64 bits, or one that is not. -/
theorem isInteger_iff :
    isInteger text = true ↔
      (∃ value, integer text = .ok value) ∨ integer text = .error (.integerOverflow text) := by
  rw [isInteger, integer]
  cases integerForm? text.toList with
  | none => simp
  | some form =>
    cases read : form.value? with
    | none => simp [read]
    | some value =>
      by_cases held : leastInteger ≤ value ∧ value ≤ greatestInteger
      · simp [read, held]
      · simp [read, held]

/-- The form of a string literal is that of the texts that are read as one or have a faulty escape
sequence. -/
theorem isString_iff {opening closing : String} {escapes : Bool} :
    isString opening closing text = true ↔
      (∃ value, string opening closing escapes text = .ok value) ∨
        ∃ error, string opening closing escapes text = .error (.escape error) := by
  rw [isString, string]
  cases body? opening closing text.toList with
  | none => simp
  | some body =>
    cases escapes with
    | false => simp
    | true => cases evaluated : Escape.evaluate body <;> simp [evaluated]

end Literal

/-! ## The first test that is passed -/

namespace Chain

/-- A chain of tests looks for the first class whose test the text passes. -/
theorem classify_map_when (tags : List Tag) (test : String → Tag → Bool) (text : String) :
    classify (tags.map fun tag => Tagger.when tag (test · tag)) text =
      (tags.find? (test text)).getD .deliminator := by
  rw [classify, List.findSome?_map]
  exact congrArg (Option.getD · _) List.findSome?_guard

/-- The classes that the standard chain gives, in its order. -/
def standardTags : List Tag :=
  [.symbol, .booleanLiteral, .characterLiteral, .stringLiteral, .integerLiteral, .floatingLiteral]

/-- The tests of the standard chain. -/
def passes (conventions : Literal.Conventions) (text : String) (tag : Tag) : Bool :=
  match tag with
  | .symbol => Literal.isSymbol text.toList &&
      !([conventions.trueWord, conventions.falseWord].contains text)
  | .booleanLiteral => (Literal.boolean conventions.trueWord conventions.falseWord text).isOk
  | .characterLiteral => (Literal.character conventions.charOpen conventions.charClose
      conventions.allowEscapes text).isOk
  | .stringLiteral => Literal.isString conventions.stringOpen conventions.stringClose text
  | .integerLiteral => Literal.isInteger text
  | .floatingLiteral => Literal.isFloating conventions.allowScientific text
  | .deliminator | .synthetic => false

/-- The standard chain asks its tests one by one, each for the class that it gives. -/
theorem standard_eq (conventions : Literal.Conventions) :
    standard conventions =
      standardTags.map fun tag => Tagger.when tag (passes conventions · tag) :=
  rfl

section

variable {conventions : Literal.Conventions} {tag : Tag} {text : String}

/-- A text passes the test of its class. -/
theorem passes_of_classify (classified : classify (standard conventions) text = tag)
    (known : tag ≠ .deliminator) : passes conventions text tag = true := by
  rw [standard_eq, classify_map_when] at classified
  cases found : standardTags.find? (passes conventions text) with
  | none => exact absurd (by rw [← classified, found]; rfl) known
  | some first =>
    obtain rfl : first = tag := by rw [← classified, found]; rfl
    exact List.find?_some found

/-- A text that passes some test is no deliminator. Then some test is the first one that it passes,
and none of the tests is for deliminators. -/
theorem classify_ne_deliminator (passed : passes conventions text tag = true) :
    classify (standard conventions) text ≠ .deliminator := by
  have member : tag ∈ standardTags := by
    cases tag with
    | deliminator => nomatch passed
    | synthetic => nomatch passed
    | _ => decide
  obtain ⟨first, found⟩ := Option.isSome_iff_exists.mp
    (List.find?_isSome.mpr ⟨tag, member, passed⟩)
  have listed : first ∈ standardTags := List.mem_of_find?_eq_some found
  rw [standard_eq, classify_map_when, found]
  rintro rfl
  exact absurd listed (by decide)

end

/-- Classes and values agree. A boolean, a character and a floating number are read to a value, an
integer unless it overflows and a string unless an escape sequence in it is faulty, all by the
conventions of the chain; and what is read to a value by any of the readers is no deliminator. -/
theorem classify_agrees (conventions : Literal.Conventions) (text : String) :
    (classify (standard conventions) text = .booleanLiteral →
      ∃ value, Literal.boolean conventions.trueWord conventions.falseWord text = .ok value) ∧
    (classify (standard conventions) text = .characterLiteral →
      ∃ value, Literal.character conventions.charOpen conventions.charClose
        conventions.allowEscapes text = .ok value) ∧
    (classify (standard conventions) text = .floatingLiteral →
      ∃ bits, Literal.floating conventions.allowScientific text = .ok bits) ∧
    (classify (standard conventions) text = .integerLiteral →
      (∃ value, Literal.integer text = .ok value) ∨
        Literal.integer text = .error (.integerOverflow text)) ∧
    (classify (standard conventions) text = .stringLiteral →
      (∃ value, Literal.string conventions.stringOpen conventions.stringClose
        conventions.allowEscapes text = .ok value) ∨
      ∃ error, Literal.string conventions.stringOpen conventions.stringClose
        conventions.allowEscapes text = .error (.escape error)) ∧
    ((∃ value, Literal.boolean conventions.trueWord conventions.falseWord text = .ok value) ∨
      (∃ value, Literal.character conventions.charOpen conventions.charClose
        conventions.allowEscapes text = .ok value) ∨
      (∃ bits, Literal.floating conventions.allowScientific text = .ok bits) ∨
      (∃ value, Literal.integer text = .ok value) ∨
      (∃ value, Literal.string conventions.stringOpen conventions.stringClose
        conventions.allowEscapes text = .ok value) →
      classify (standard conventions) text ≠ .deliminator) := by
  refine ⟨?_, ?_, ?_, ?_, ?_, ?_⟩
  · intro classified
    exact Literal.isOk_iff.mp (passes_of_classify classified (by decide))
  · intro classified
    exact Literal.isOk_iff.mp (passes_of_classify classified (by decide))
  · intro classified
    exact Literal.isFloating_iff.mp (passes_of_classify classified (by decide))
  · intro classified
    exact Literal.isInteger_iff.mp (passes_of_classify classified (by decide))
  · intro classified
    exact Literal.isString_iff.mp (passes_of_classify classified (by decide))
  · have named (tag : Tag) (passed : passes conventions text tag = true) :=
      classify_ne_deliminator passed
    rintro (boolean | character | floating | integer | string)
    · exact named .booleanLiteral (Literal.isOk_iff.mpr boolean)
    · exact named .characterLiteral (Literal.isOk_iff.mpr character)
    · exact named .floatingLiteral (Literal.isFloating_iff.mpr floating)
    · exact named .integerLiteral (Literal.isInteger_iff.mpr (.inl integer))
    · exact named .stringLiteral (Literal.isString_iff.mpr (.inl string))

/-- No digit stands before the point, and the exponent has a sign. -/
theorem barePoint_agrees :
    classify (standard {}) "-.5e+3" = .floatingLiteral ∧
    (∃ bits, Literal.floating true "-.5e+3" = .ok bits) ∧
    classify (standard {}) "-.5e+3" ≠ .deliminator := by
  have classified : classify (standard {}) "-.5e+3" = .floatingLiteral := by decide +kernel
  have read := (classify_agrees {} "-.5e+3").2.2.1 classified
  have known := (classify_agrees {} "-.5e+3").2.2.2.2.2 (.inr (.inr (.inl read)))
  exact ⟨classified, read, known⟩

end Chain

end Parlance
