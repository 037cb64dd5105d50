import Parlance.Literal.Basic

/-!
# Quoted literals

Characters and strings stand between an opening and a closing quote, each a text
of the configuration that must not be empty. A character literal holds one
character, or escape sequences that evaluate to one; a string literal holds
anything, with its escape sequences evaluated where they are allowed.
-/

namespace Parlance.Literal

/-- The text behind `start`, if it begins with it. -/
def behind? (start text : List Char) : Option (List Char) :=
  if start.isPrefixOf text then some (text.drop start.length) else none

/-- The text before `final`, if it ends with it. -/
def before? (final text : List Char) : Option (List Char) :=
  if final.isSuffixOf text then some (text.take (text.length - final.length)) else none

/-- The text between two quotes, neither of which may be empty. -/
def body? (opening closing : String) (text : List Char) : Option (List Char) :=
  if opening.isEmpty || closing.isEmpty then none
  else (behind? opening.toList text).bind (before? closing.toList)

/-- The value of a character literal. -/
def character (opening closing : String) (escapes : Bool) (text : String) :
    Except Error Char :=
  match body? opening closing text.toList with
  | some [c] => .ok c
  | some ('\\' :: rest) =>
    if escapes then
      match Escape.evaluate ('\\' :: rest) with
      | .ok [c] => .ok c
      | .ok _ => .error (.notALiteral .character text)
      | .error error => .error (.escape error)
    else .error (.notALiteral .character text)
  | _ => .error (.notALiteral .character text)

/-- Whether `text` has the form of a string literal. -/
def isString (opening closing : String) (text : String) : Bool :=
  (body? opening closing text.toList).isSome

/-- The value of a string literal. -/
def string (opening closing : String) (escapes : Bool) (text : String) :
    Except Error String :=
  match body? opening closing text.toList with
  | none => .error (.notALiteral .string text)
  | some body =>
    if escapes then
      match Escape.evaluate body with
      | .ok value => .ok (String.ofList value)
      | .error error => .error (.escape error)
    else .ok (String.ofList body)

end Parlance.Literal
