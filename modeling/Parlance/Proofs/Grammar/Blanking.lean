import Parlance.Grammar.Basic
import Parlance.Proofs.Json.Reading

/-!
# Comments of grammar documents

A comment of a grammar document is removed, and not read as a blank. The difference is seen where
a comment without newlines stands between two characters of runs: the runs become one, as the
two parts of a number that is written with a comment in it. Such a document may be accepted,
although it would be refused with its comments blanked out.

Everywhere else the comments might as well be blanks. The tokens are the same, and the document
describes the same grammar or none. Which fault is reported may differ, as a number that breaks
off at the end of the text is told apart from one that breaks off before a blank.

That the grammar is the same is shown of every reader of settings that is blind to blanks. Of the
reader itself nothing else is used, so another one may be put in its place; the reader of
documents with the decoder of settings is one of them.
-/

namespace Parlance

open Json

/-! ## Decoders of grammar documents -/

namespace Spec

/-- An arity is read alike from a document and from the blurred one, whatever fault is to be
reported otherwise. -/
theorem toOption_decodeArity_blurred (misfit other : Fault) (document : Document) :
    (decodeArity misfit document.blurred).toOption = (decodeArity other document).toOption := by
  cases document with
  | object members =>
    cases members with
    | stop ending => rfl
    | stray fault value => exact blind_refuse value
    | member surplus key within value more =>
      simp only [Document.blurred, Members.blurred, decodeArity, toOption_bind, blind_asText key]
      congr 1
      funext name
      congr 1
      funext arity
      -- Of what an arity holds and of what follows it only matters whether it is nothing.
      cases value <;> cases more with
      | stop ending =>
        obtain ⟨next, held⟩ := ending
        cases next <;> rfl
      | _ => rfl
  | _ => rfl

/-- The reader of rules does not see blanks, since it takes a record apart by the names of its
fields. -/
theorem blind_decodeRule : Blind decodeRule := blind_asRecord (by simp) _ _

/-- The reader of the root does not see blanks. -/
theorem blind_decodeRoot : Blind decodeRoot := blind_asRecord (by simp) _ _

/-- The reader of bounds does not see blanks. -/
theorem blind_decodeBound : Blind decodeBound := blind_asRecord (by simp) _ _

/-- The reader of operators does not see blanks. Its field for the arity is not a plain one, so that
one is looked at by itself. -/
theorem blind_decodeOperator : Blind decodeOperator := by
  have arity : Field.Blind ⟨"arity", fun (draft : OperatorSpec) misfit document =>
      (decodeArity misfit document).map fun arity => { draft with arity }⟩ := by
    intro draft misfit other document
    change ((fun arity => { draft with arity }) <$> decodeArity misfit document.blurred).toOption =
      ((fun arity => { draft with arity }) <$> decodeArity other document).toOption
    rw [toOption_map, toOption_map, toOption_decodeArity_blurred misfit other document]
  intro document
  rw [decodeOperator, decodeOperator, blind_asRecord (by simp [arity])]

/-- The reader of the names of branches does not see blanks. -/
theorem blind_decodeNames : Blind decodeNames := blind_asRecord (by simp) _ _

/-- The reader of expressions does not see blanks. -/
theorem blind_decodeExpression : Blind decodeExpression :=
  blind_asRecord (by simp [blind_decodeNames, blind_decodeOperator]) _ _

/-- The reader of the settings for literals does not see blanks. -/
theorem blind_decodeLiterals : Blind decodeLiterals := blind_asRecord (by simp) _ _

/-- Whether a document describes a grammar, and which, does not depend on what its faults tell. -/
theorem blind_decode : Blind decode := by
  have definitions : Blind (Document.asDictionary (Document.asList Document.asText)) :=
    blind_asDictionary (blind_asList blind_asText)
  exact blind_asRecord (by simp [definitions, blind_decodeRule, blind_decodeRoot,
    blind_decodeBound, blind_decodeExpression, blind_decodeLiterals]) _ _

/-- Settings are read from the plain text of a document alone. The document itself matters only for
the faults that are reported. -/
theorem toOption_ofText (text : String) :
    (ofText text).toOption = (decodeText decode (plain text.toList)).toOption := by
  unfold ofText
  dsimp only
  rcases decodeText decode (plain text.toList) with (_ | _) | _ <;> rfl

/-- A document gives settings exactly if its plain text gives them. -/
theorem ofText_eq_ok_iff {text : String} {spec : Spec} :
    ofText text = .ok spec ↔
      (decodeText decode (plain text.toList)).toOption = some spec := by
  rw [← toOption_ofText]
  cases ofText text <;> simp [Except.toOption]

end Spec

/-! ## Comments blanked out -/

namespace Grammar

/-- The text of a document with its comments blanked out. -/
def blanked (text : String) : String := String.ofList (blankComments text.toList)

/-- A document gives a grammar exactly if it gives settings which pass the checks and describe that
grammar. -/
theorem ofText_eq_ok_iff {text : String} {grammar : Grammar} :
    ofText text = .ok grammar ↔
      ∃ spec, Spec.ofText text = .ok spec ∧ ofSpec spec = .ok grammar := by
  unfold ofText
  cases Spec.ofText text with
  | error error => simp
  | ok spec => cases described : ofSpec spec <;> simp [described]

/-- The grammar that a document describes when its plain text is given to the reader. The removal
of comments and commas and the checks of the settings are the same for every reader. -/
def describedBy (read : List Char → Option Spec) (text : String) : Option Grammar :=
  (read (plain text.toList)).bind fun spec => (ofSpec spec).toOption

/-- Where no comment without newlines stands between two runs, any reader that is blind to blanks
finds the same grammar, or none, in a document and in the document with its comments blanked
out. -/
theorem describedBy_blanked {read : List Char → Option Spec} (blind : BlindToBlanks read)
    {text : String} (apart : ¬ Fuses text.toList) :
    describedBy read (blanked text) = describedBy read text := by
  have same : read (plain text.toList) = read (plain (blanked text).toList) := by
    rw [blanked, String.toList_ofList]
    exact blind (respaced_plain apart)
  rw [describedBy, describedBy, same]

/-- A document describes the grammar that is found in it with the reader of documents and the
decoder of settings. -/
theorem ofText_eq_ok_iff_describedBy {text : String} {grammar : Grammar} :
    ofText text = .ok grammar ↔
      describedBy (fun text => (decodeText Spec.decode text).toOption) text = some grammar := by
  rw [ofText_eq_ok_iff, describedBy, Option.bind_eq_some_iff]
  refine exists_congr fun spec => and_congr Spec.ofText_eq_ok_iff ?_
  cases ofSpec spec <;> simp [Except.toOption]

/-- Removing the comments of a document leaves the tokens that it has with its comments read as
blanks exactly when no comment without newlines stands between two runs. If none does, the
document describes the same grammar with its comments blanked out, or none. -/
theorem comments_blank_iff (text : String) :
    (lexemes (stripComments text.toList) = lexemes (blankComments text.toList) ↔
      ¬ Fuses text.toList) ∧
    (¬ Fuses text.toList → ∀ grammar, ofText text = .ok grammar ↔
      ofText (blanked text) = .ok grammar) := by
  constructor
  · exact lexemes_stripComments_iff text.toList
  · intro apart grammar
    have blind : BlindToBlanks fun text => (decodeText Spec.decode text).toOption :=
      blindToBlanks_decodeText Spec.blind_decode
    rw [ofText_eq_ok_iff_describedBy, ofText_eq_ok_iff_describedBy,
      describedBy_blanked blind apart]

/-- A document with comments between its tokens. -/
def remarkedDepth : String :=
  "/* limits */ \x7b\"expression\": \x7b // of operands\n \"maxDepth\":/**/12 /* rows */\x7d\x7d"

/-- Comments between tokens might as well be blanks. That no comment is between two parts of one
token is computed, and the general theorem does the rest. -/
theorem remarkedDepth_blanked : ¬ Fuses remarkedDepth.toList ∧
    ∃ grammar, ofText remarkedDepth = .ok grammar ∧
      ofText (blanked remarkedDepth) = .ok grammar := by
  obtain ⟨tokens, grammars⟩ := comments_blank_iff remarkedDepth
  have apart : ¬ Fuses remarkedDepth.toList := tokens.mp (by decide +kernel)
  have accepted : (ofText remarkedDepth).isOk := by decide +kernel
  refine ⟨apart, ?_⟩
  cases read : ofText remarkedDepth with
  | error error =>
    rw [read] at accepted
    cases accepted
  | ok grammar => exact ⟨grammar, rfl, (grammars apart grammar).mp read⟩

/-- A document with a comment inside of a number. -/
def dividedDepth : String := "\x7b\"expression\": \x7b\"maxDepth\": 1/**/2\x7d\x7d"

/-- The parts of a number become one number, and the document is accepted with it, while it would
be refused with the comment blanked out. -/
theorem dividedDepth_fused :
    lexemes (stripComments dividedDepth.toList) ≠ lexemes (blankComments dividedDepth.toList) ∧
    (ofText dividedDepth).isOk ∧
    (Spec.ofText dividedDepth).toOption.map (·.expression.map (·.maxDepth)) = some (some 12) ∧
    (ofText (blanked dividedDepth)).isOk = false := by
  decide +kernel

end Grammar

end Parlance
