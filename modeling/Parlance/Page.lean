import Parlance.Token

/-!
# Laying out tokens on a page

Text that looks like the source can be made from tokens alone: newlines up to each
token's line, padding up to its column, then its text. What stood between the
tokens is gone, but every token is on its line, at its column or behind it. Tokens
put in by one definition share a place, so each of them that touches what stands
before it is set off by a space.
-/

namespace Parlance

/-- A page being written: its text so far and where the next character goes. -/
structure Page where
  text : String := ""
  line : Nat := 1
  column : Nat := 0
deriving DecidableEq, Repr, Inhabited

namespace Page

/-- Write one character and move on. -/
def writeChar (page : Page) (c : Char) : Page :=
  if c = '\n' then { text := page.text.push c, line := page.line + 1, column := 0 }
  else { page with text := page.text.push c, column := page.column + 1 }

/-- Write all of `text`. -/
def write (page : Page) (text : List Char) : Page := text.foldl writeChar page

/-- Begin new lines until the page is at the given line or below it. -/
def downTo (page : Page) (line : Nat) : Page :=
  page.write (List.replicate (line - page.line) '\n')

/-- Put a token on the page. Padding at the start of a line is made of tabs when
`leadingTabs` is set, and of spaces otherwise. -/
def place (leadingTabs : Bool) (page : Page) (token : Token) : Page :=
  let below := page.downTo token.position.line
  let atLineStart := below.column = 0
  let padded :=
    if below.column < token.position.column then
      below.write (List.replicate (token.position.column - below.column)
        (if atLineStart && leadingTabs then '\t' else ' '))
    else if token.tag = .synthetic && !atLineStart then below.writeChar ' '
    else below
  padded.write token.value.toList

/-- The text of a page with the given tokens. -/
def ofTokens (leadingTabs : Bool) (tokens : List Token) : String :=
  (tokens.foldl (place leadingTabs) {}).text

end Page

end Parlance
