import Parlance.Diagnostic.Catalogue

/-!
# Definitions of names

A name can be defined to stand for something else: for tokens while a text is cut
up, for a tree while a tree is built. A definition is put in as it is and not
looked at again. Two operations report: a definition that replaces another one,
and the use of a name that has none.
-/

namespace Parlance

/-- What names stand for. -/
abbrev Definitions (α : Type) := Dictionary α

namespace Definitions

variable {α : Type}

/-- Define `name`, with a warning at `site` when it was defined already. -/
def define (definitions : Definitions α) (name : String) (body : α) (site : Token) :
    Reported (Definitions α) where
  value := definitions.insert name body
  diagnostics :=
    if definitions.contains name then [(Problem.shadowedDefinition name).diagnose site] else []

/-- What `name` stands for, with an error at `site` when it stands for nothing. -/
def resolve (definitions : Definitions α) (name : String) (site : Token) :
    Reported (Option α) where
  value := definitions.find? name
  diagnostics :=
    if definitions.contains name then [] else [(Problem.undefinedName name).diagnose site]

end Definitions

end Parlance
