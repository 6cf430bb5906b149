import DecimalLift.Diagnostic
import DecimalLift.Token.Number
import DecimalLift.Token.Quoted

/-!
# From text to tokens

* `scanToken` (`next_token` behind blanks, with `tokenize_identifier`, `tokenize_line_comment` and
  `tokenize_block_comment`) — the token at the front of a text that starts with no blank.
* `Cursor` (`Lexer`) — what is left of a text, and the place where it starts.
* `Cursor.next` (`next_token`) — the next token or the fault met, and the cursor behind it. The
  cursor moves in both cases, so that reading can go on.
* `tokenize` (`Lexer.tokenize`) — all tokens of a text up to and including the end of file, or the
  first fault.
-/

set_option autoImplicit false

namespace DecimalLift

open DecimalLift.Text

/-- A fault with the place of the token that it spoils. -/
structure LexError where
  fault : LexFault
  location : Location
  deriving DecidableEq, Repr

def LexError.toSourceError (e : LexError) : SourceError := .lexical e.fault.message e.location

/-- A keyword, or the identifier of that name. -/
def TokenKind.ofWord (name : String) : TokenKind :=
  match Keyword.ofText? name with
  | some k => .keyword k
  | none => .identifier name

/-- The word at the front of a text. -/
def scanWord (cs : List Char) : Scan TokenKind :=
  let word := cs.takeWhile isNamePart
  .done word (.ofWord (String.ofList word))

/-- The rest of the line behind `//`. -/
def scanLineComment (cs : List Char) : Scan TokenKind :=
  let text := cs.takeWhile (· ≠ '\n')
  .done ('/' :: '/' :: text) (.lineComment (String.ofList text))

/-- The text behind `/*` up to the first `*/`. -/
def commentBody : List Char → Scan (List Char)
  | '*' :: '/' :: _ => .done ['*', '/'] []
  | c :: cs => (commentBody cs).emit [c] [c]
  | [] => .stop [] .unterminatedComment

def scanBlockComment (cs : List Char) : Scan TokenKind :=
  ((commentBody cs).map fun text => .blockComment (String.ofList text)).after ['/', '*']

/-- The symbol at the front of `c :: cs`; a character that starts none is taken alone. -/
def scanSymbol (c : Char) (cs : List Char) : Scan TokenKind :=
  match Symbol.munch? (c :: cs) with
  | some s => .done s.chars (.symbol s)
  | none => .stop [c] (.unexpectedCharacter c)

/-- The token at the front of a text that starts with no blank. -/
def scanToken : List Char → Scan TokenKind
  | [] => .done [] .endOfFile
  | c :: cs =>
    if c = '\n' then .done [c] .newline
    else if isNameStart c then scanWord (c :: cs)
    else if c.isDigit || (c == '.' && cs.head?.any Char.isDigit) then
      (Number.scan (c :: cs)).map .number
    else if c = '\'' then Quoted.scan .single cs
    else if c = '"' then Quoted.scan .double cs
    else if c = '/' ∧ cs.head? = some '/' then scanLineComment cs.tail
    else if c = '/' ∧ cs.head? = some '*' then scanBlockComment cs.tail
    else scanSymbol c cs

/-- What is left of a text, and where it starts. -/
structure Cursor where
  rest : List Char
  location : Location
  deriving DecidableEq, Repr

namespace Cursor

def start (source file : String) : Cursor := ⟨source.toList, .start file⟩

/-- The cursor behind `taken`, which stands at the front of what is left. -/
def past (c : Cursor) (taken : List Char) : Cursor :=
  ⟨c.rest.drop taken.length, c.location.advanceOver taken⟩

/-- Blanks that separate tokens; a line feed is a token of its own. -/
def isGap (c : Char) : Bool := isBlank c && c != '\n'

def skipBlanks (c : Cursor) : Cursor := c.past (c.rest.takeWhile isGap)

/-- The next token, and the cursor behind it or behind what spoilt it. -/
def next (c : Cursor) : Except LexError Token × Cursor :=
  let here := c.skipBlanks
  let s := scanToken here.rest
  let behind := here.past s.taken
  match s.outcome with
  | .ok kind => (.ok ⟨kind, ⟨here.location, behind.location⟩, false⟩, behind)
  | .error fault => (.error ⟨fault, here.location⟩, behind)

/-- Tokens up to and including the end of file. Every token but that one takes a character, so
one more step than there are characters is enough. -/
def tokens : Nat → Cursor → Except LexError (List Token)
  | 0, _ => .ok []
  | steps + 1, c =>
    match c.next with
    | (.error e, _) => .error e
    | (.ok t, c') =>
      if t.kind = .endOfFile then .ok [t]
      else (tokens steps c').map (t :: ·)

end Cursor

/-- All tokens of a text, the end of file included. -/
def tokenize (source file : String) : Except LexError (List Token) :=
  let c := Cursor.start source file
  c.tokens (c.rest.length + 1)

end DecimalLift
