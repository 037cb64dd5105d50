import Parlance.Dictionary
import Parlance.Text.Blank

/-!
# Message templates

A template is text with placeholders in braces. Filling replaces a placeholder by
the value that the context holds for its name, blanks around the name not
counting. A placeholder without a value stays as it is, and so does a brace that
is never closed. Values are not looked at again.
-/

namespace Parlance.Template

/-- What a placeholder with the given inside contributes. -/
def placeholder (context : Dictionary String) (inside : List Char) : List Char :=
  match context.find? (String.ofList (Text.trim inside)) with
  | some value => value.toList
  | none => '\x7b' :: inside ++ ['\x7d']

/-- Whether `c` does not close a placeholder. -/
def isInside (c : Char) : Bool := c ≠ '\x7d'

/-- The template with its placeholders filled from the context. -/
def fillChars (context : Dictionary String) : List Char → List Char
  | [] => []
  | c :: rest =>
    if c = '\x7b' then
      match _found : rest.dropWhile isInside with
      | [] => c :: rest
      | _ :: behind => placeholder context (rest.takeWhile isInside) ++ fillChars context behind
    else c :: fillChars context rest
termination_by template => template.length
decreasing_by
  · have shorter := (List.dropWhile_suffix (l := rest) isInside).length_le
    simp only [_found, List.length_cons] at shorter ⊢
    omega
  · simp only [List.length_cons]
    omega

/-- The template with its placeholders filled from the context. -/
def fill (template : String) (context : Dictionary String) : String :=
  String.ofList (fillChars context template.toList)

end Parlance.Template
