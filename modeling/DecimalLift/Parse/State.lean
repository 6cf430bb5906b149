import DecimalLift.Diagnostic
import DecimalLift.Tree

/-!
# Reading from a queue of tokens

* `ParseError` — why a queue does not start with what was asked for, with its wording.
* `ParserState` (`Parser`) — the tokens left, the end of the last one taken, and the next free id.
* `Parse` — a step that reads from the queue (`expect`, `expect_identifier`, `expect_word`,
  `consume_semicolon`). The state is handed on after a failure too, so that reading can go on
  behind it.
* `Parse.node` (`make_expression`, `make_statement`) — a node with the next id.
* `ParserState.ofTokens` (`Parser.new`) — line ends and comments are dropped; a token remembers
  whether a line break stood before it.
-/

set_option autoImplicit false

namespace DecimalLift

/-- What the reader was looking for. -/
inductive Expected where
  | token (kind : TokenKind) (context : String)
  | identifier (context : String)
  | word (spelling context : String)
  | expression
  | ascription
  | moduleName
  | blockEnd
  deriving DecidableEq, Repr

def Expected.text : Expected → String
  | .token kind context => "'" ++ kind.text ++ "' in " ++ context
  | .identifier context => "identifier in " ++ context
  | .word spelling context => "'" ++ spelling ++ "' in " ++ context
  | .expression => "expression"
  | .ascription => "type"
  | .moduleName => "module specifier"
  | .blockEnd => "'\x7d' to close block"

inductive ParseError where
  | unexpectedToken (expected : Expected) (found : Token)
  | unexpectedEnd (expected : Expected) (location : Location)
  /-- Something other than a declaration behind `export`. -/
  | notExportable (location : Location)
  /-- An assignment to an expression of a kind that holds no value. -/
  | notAssignable (kind : String) (location : Location)
  /-- A token that starts no type. -/
  | notType (found : TokenKind) (location : Location)
  /-- The step budget was too small for the queue. -/
  | outOfSteps (location : Location)
  deriving DecidableEq, Repr

namespace ParseError

def message : ParseError → String
  | .unexpectedToken expected found =>
    "Expected " ++ expected.text ++ ", found '" ++ found.kind.text ++ "'"
  | .unexpectedEnd expected _ => "Unexpected end of file, expected " ++ expected.text
  | .notExportable _ => "Only declarations can be exported"
  | .notAssignable kind _ => "Invalid assignment target: " ++ kind
  | .notType found _ => "Expected type, found '" ++ found.text ++ "'"
  | .outOfSteps _ => "Nesting is too deep"

def location : ParseError → Location
  | .unexpectedToken _ found => found.span.start
  | .unexpectedEnd _ l => l
  | .notExportable l => l
  | .notAssignable _ l => l
  | .notType _ l => l
  | .outOfSteps l => l

def toSourceError (e : ParseError) : SourceError := .grammatical e.message e.location

end ParseError

structure ParserState where
  tokens : List Token
  file : String
  /-- Where the token taken last ends. -/
  lastEnd : Location
  /-- The id of the next node. -/
  nextId : UInt32
  deriving DecidableEq, Repr

/-- Whether a token is left out of the queue, and whether it breaks the line. -/
def TokenKind.trivia? : TokenKind → Option Bool
  | .newline => some true
  | .lineComment _ => some false
  | .blockComment text => some (text.toList.contains '\n')
  | _ => none

/-- The tokens without line ends and comments; `broken` says whether a line break came before. -/
def significant (broken : Bool) : List Token → List Token
  | [] => []
  | t :: ts =>
    match t.kind.trivia? with
    | some breaks => significant (broken || breaks) ts
    | none => { t with afterBreak := broken } :: significant false ts

def ParserState.ofTokens (tokens : List Token) (file : String) : ParserState :=
  ⟨significant false tokens, file, .start file, 0⟩

abbrev Parse := EStateM ParseError ParserState

namespace Parse

def peek? : Parse (Option Token) := fun s => .ok s.tokens.head? s

/-- The kind of the next token. -/
def peekKind? : Parse (Option TokenKind) := fun s => .ok (s.tokens.head?.map (·.kind)) s

/-- Where the next token starts, or where the last one ended if none is left. -/
def here : Parse Location := fun s =>
  match s.tokens with
  | t :: _ => .ok t.span.start s
  | [] => .ok s.lastEnd s

/-- Takes the next token. -/
def advance? : Parse (Option Token) := fun s =>
  match s.tokens with
  | t :: ts => .ok (some t) { s with tokens := ts, lastEnd := t.span.stop }
  | [] => .ok none s

/-- Takes the next token, for its kind. -/
def advanceKind? : Parse (Option TokenKind) := do return (← advance?).map (·.kind)

/-- Whether the next token is of a given kind; an empty queue stands at the end of file. -/
def at? (kind : TokenKind) : Parse Bool := fun s =>
  match s.tokens with
  | t :: _ => .ok (t.kind = kind) s
  | [] => .ok (kind = .endOfFile) s

/-- Takes the next token if it is of a given kind. -/
def accept (kind : TokenKind) : Parse Bool := do
  if ← at? kind then
    let _ ← advance?
    return true
  else return false

/-- Whether the next token is a given name that is a keyword in some places only. -/
def atWord? (spelling : String) : Parse Bool := at? (.identifier spelling)

/-- The failure for a queue that ended. -/
def failAtEnd {α : Type} (expected : Expected) : Parse α := fun s =>
  .error (.unexpectedEnd expected s.lastEnd) s

/-- Takes the next token, which has to be of a given kind. -/
def expect (kind : TokenKind) (context : String) : Parse Unit := do
  match ← advance? with
  | some t =>
    if t.kind = .endOfFile then throw (.unexpectedEnd (.token kind context) t.span.start)
    else if t.kind = kind then return ()
    else throw (.unexpectedToken (.token kind context) t)
  | none => failAtEnd (.token kind context)

/-- Takes the next token, which has to be an identifier. -/
def expectIdentifier (context : String) : Parse String := do
  match ← advance? with
  | some t =>
    match t.kind with
    | .identifier name => return name
    | .endOfFile => throw (.unexpectedEnd (.identifier context) t.span.start)
    | _ => throw (.unexpectedToken (.identifier context) t)
  | none => failAtEnd (.identifier context)

/-- Takes the next token, which has to be a given name. -/
def expectWord (spelling context : String) : Parse Unit := do
  match ← advance? with
  | some t =>
    if t.kind = .identifier spelling then return ()
    else throw (.unexpectedToken (.word spelling context) t)
  | none => failAtEnd (.word spelling context)

/-- A semicolon, or the place of one: before a closing brace, the end of file or a line break. -/
def endStatement (context : String) : Parse Unit := do
  if ← accept (.symbol .semicolon) then return ()
  match ← peek? with
  | some t =>
    if t.afterBreak || t.kind = .symbol .rightBrace || t.kind = .endOfFile then return ()
    else expect (.symbol .semicolon) context
  | none => return ()

/-- The span from a location to the end of the last token. -/
def spanFrom (start : Location) : Parse Span := fun s => .ok ⟨start, s.lastEnd⟩ s

/-- A node with the next id. -/
def node (span : Span) : Parse Node := fun s =>
  .ok ⟨s.nextId, span⟩ { s with nextId := s.nextId + 1 }

/-- A node with the next id that ends with the last token. -/
def nodeFrom (start : Location) : Parse Node := do node (← spanFrom start)

/-- The failure of a reader that has used up its steps. -/
def outOfSteps {α : Type} : Parse α := do throw (.outOfSteps (← here))

/-- A number of steps that is enough for everything that a reader does with a queue. -/
def steps (s : ParserState) : Nat := 16 * (s.tokens.length + 1)

/-- Runs a reader with enough steps for the queue that it meets. -/
def withSteps {α : Type} (p : Nat → Parse α) : Parse α := fun s => p (steps s) s

end Parse

end DecimalLift
