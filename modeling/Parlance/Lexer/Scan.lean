import Parlance.Lexer.Basic

/-!
# Cutting a text into tokens

A text is cut into segments: regions of rules, and runs of text between them at no
character of which a rule applies. Every segment that is not a region of a
filtered rule gives a token, with the position that its first character has in the
text. What is done with a token is up to a hook, which passes it on, replaces it,
or reports it.
-/

namespace Parlance

/-- A piece of a text. -/
inductive Segment where
  /-- A region recognized by a rule. -/
  | region (rule : Rule) (text : List Char)
  /-- Text between regions. -/
  | run (text : List Char)

namespace Segment

/-- The text of a segment. -/
def text : Segment → List Char
  | .region _ text => text
  | .run text => text

/-- Whether the segment gives a token. -/
def isKept : Segment → Bool
  | .region rule _ => !rule.filtered
  | .run _ => true

/-- The class of a segment's token. -/
def tag (chain : Chain) : Segment → Tag
  | .region .. => .deliminator
  | .run text => chain.classify (String.ofList text)

/-- The run of the characters collected so far, newest first, if there are any. -/
def flush (collected : List Char) : List Segment :=
  if collected.isEmpty then [] else [.run collected.reverse]

end Segment

/-- A text with the file it is from and the position it has there. -/
structure Source where
  text : String
  file : String
  start : Position := {}
deriving Repr

/-- What becomes of a token. -/
abbrev TokenHook := Token → Reported (List Token)

namespace Lexer

/-- The segments of `text`, before which the characters of an unfinished run have
been collected, newest first. -/
def segmentsFrom (lexer : Lexer) (collected : List Char) (text : List Char) : List Segment :=
  match text with
  | [] => Segment.flush collected
  | c :: rest =>
    match lexer.matchAt (c :: rest) with
    | none => lexer.segmentsFrom (c :: collected) rest
    | some rule =>
      let length := rule.regionLength (c :: rest)
      Segment.flush collected ++
        .region rule ((c :: rest).take length) ::
          lexer.segmentsFrom [] ((c :: rest).drop length)
termination_by text.length
decreasing_by
  · simp only [List.length_cons]; omega
  · have advances := rule.regionLength_pos c rest
    simp only [List.length_drop, List.length_cons] at *
    omega

/-- The segments of a text. -/
def segments (lexer : Lexer) (text : List Char) : List Segment := lexer.segmentsFrom [] text

/-- The tokens of segments, the first of which is at `position`. -/
def tokensOf (chain : Chain) (file : String) (position : Position) :
    List Segment → List Token
  | [] => []
  | segment :: rest =>
    let others := tokensOf chain file (position.advance segment.text) rest
    if segment.isKept then
      { value := String.ofList segment.text, tag := segment.tag chain, position, file } :: others
    else others

/-- The tokens of a text as it stands there. -/
def scan (lexer : Lexer) (source : Source) : List Token :=
  tokensOf lexer.chain source.file source.start (lexer.segments source.text.toList)

/-- Hand tokens to a hook in turn and collect what it makes of them. -/
def throughHook (hook : TokenHook) (tokens : List Token) : Reported (List Token) where
  value := tokens.flatMap fun token => (hook token).value
  diagnostics := tokens.flatMap fun token => (hook token).diagnostics

/-- The tokens that `hook` makes of a text. -/
def lexWith (lexer : Lexer) (hook : TokenHook) (source : Source) : Reported (List Token) :=
  throughHook hook (lexer.scan source)

/-- The hook that passes every token on. -/
def passOn : TokenHook := fun token => { value := [token] }

/-- The hook that puts a definition in the place of its name. -/
def expand (lexer : Lexer) : TokenHook := fun token =>
  match lexer.definitions.find? token.value with
  | some body => { value := body.map (·.restampedAt token) }
  | none => { value := [token] }

/-- The hook for names behind a marker: a token that begins with `marker` stands for
the definition of the rest of its text and is dropped with an error when there is
none. -/
def expandMarked (lexer : Lexer) (marker : String) : TokenHook := fun token =>
  if marker.toList.isPrefixOf token.value.toList then
    let name := String.ofList (token.value.toList.drop marker.length)
    let resolved := Definitions.resolve lexer.definitions name token
    { value := (resolved.value.getD []).map (·.restampedAt token)
      diagnostics := resolved.diagnostics }
  else { value := [token] }

/-- The tokens of a text from the start of a file, with definitions put in. -/
def lex (lexer : Lexer) (text file : String) : List Token :=
  (lexer.lexWith lexer.expand { text, file }).value

end Lexer

end Parlance
