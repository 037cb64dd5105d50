import Parlance.Position

/-!
# Tokens

A token is a piece of source text with the class it was given, the position of
its first character and the file it came from. Tokens that stand for a name's
definition rather than for source text carry the position of the use and a class
of their own.
-/

namespace Parlance

/-- The class of a token. -/
inductive Tag where
  /-- A delimited region, or text that no tagger knows. -/
  | deliminator
  | symbol
  | booleanLiteral
  | integerLiteral
  | floatingLiteral
  | characterLiteral
  | stringLiteral
  /-- Put in by the expansion of a definition. -/
  | synthetic
deriving DecidableEq, Repr, Inhabited

namespace Tag

/-- Whether the class is one of the five kinds of literal. -/
def isLiteral : Tag → Bool
  | .booleanLiteral | .integerLiteral | .floatingLiteral | .characterLiteral
  | .stringLiteral => true
  | _ => false

/-- The short name used in listings. -/
def short : Tag → String
  | .deliminator => "delim"
  | .symbol => "symbol"
  | .booleanLiteral => "bool"
  | .integerLiteral => "int"
  | .floatingLiteral => "float"
  | .characterLiteral => "char"
  | .stringLiteral => "string"
  | .synthetic => "synthetic"

/-- The full name used in documents. -/
def name : Tag → String
  | .deliminator => "deliminator"
  | .symbol => "symbol"
  | .booleanLiteral => "booleanLiteral"
  | .integerLiteral => "integerLiteral"
  | .floatingLiteral => "floatingLiteral"
  | .characterLiteral => "characterLiteral"
  | .stringLiteral => "stringLiteral"
  | .synthetic => "synthetic"

/-- All classes. -/
def all : List Tag :=
  [.deliminator, .symbol, .booleanLiteral, .integerLiteral, .floatingLiteral,
    .characterLiteral, .stringLiteral, .synthetic]

/-- The class with the given full name. -/
def ofName? (name : String) : Option Tag := all.find? (fun tag => tag.name = name)

end Tag

/-- A range of bytes, from `start` up to but not including `stop`. -/
structure Span where
  start : Nat
  stop : Nat
deriving DecidableEq, Repr

namespace Span

/-- The range from `start` to `stop`, refused when it would end before it starts. -/
def make? (start stop : Nat) : Except String Span :=
  if stop < start then .error s!"Span end ({stop}) < start ({start})" else .ok ⟨start, stop⟩

/-- The range of no bytes at `place`. -/
def empty (place : Nat) : Span := ⟨place, place⟩

end Span

/-- A place for human readers: file, line from one, column from zero. -/
structure Location where
  file : String
  line : Nat
  column : Nat
deriving DecidableEq, Repr

/-- The place on one line. -/
def Location.text (location : Location) : String :=
  s!"{location.file}:{location.line}:{location.column}"

/-- A piece of text with its class and its origin. -/
structure Token where
  value : String := ""
  tag : Tag := .deliminator
  position : Position := {}
  file : String := ""
deriving DecidableEq, Repr, Inhabited

namespace Token

/-- A token without a place of its own, as definitions hold them. -/
def bare (value : String) (tag : Tag) : Token := { value, tag }

/-- The token as it is put in by a definition used at `site`. -/
def restampedAt (token site : Token) : Token :=
  { token with tag := .synthetic, position := site.position, file := site.file }

/-- The bytes the token's text covers from its position on. Their end is a sum of
natural numbers, which has no bound; as the end of a text in memory it is assumed to
fit a machine word. -/
def span (token : Token) : Span :=
  ⟨token.position.offset, token.position.offset + token.value.utf8ByteSize⟩

/-- The place of the token for human readers. -/
def location (token : Token) : Location :=
  ⟨token.file, token.position.line, token.position.column⟩

end Token

end Parlance
