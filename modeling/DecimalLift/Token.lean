import DecimalLift.Location

/-!
# Tokens

* `Keyword`, `Symbol` — the reserved words and the marks, each with its spelling.
* `TokenKind` (`TokenType`) — what a token is. Numbers keep their exact spelling, strings keep both
  the text between the quotes and the value it stands for; line ends and comments are tokens as
  well.
* `Token` — a kind with its span, and whether a line break stands before it.
* `Symbol.munch?` — the longest symbol at the front of a text.
-/

set_option autoImplicit false

namespace DecimalLift

/-- The mark around a string literal. -/
inductive Quote where
  | single
  | double
  deriving DecidableEq, Repr

def Quote.mark : Quote → Char
  | .single => '\''
  | .double => '"'

inductive Keyword where
  | importWord
  | exportWord
  | letWord
  | constWord
  | varWord
  | functionWord
  | returnWord
  | ifWord
  | elseWord
  | whileWord
  | forWord
  | newWord
  | trueWord
  | falseWord
  | nullWord
  | typeofWord
  deriving DecidableEq, Repr

namespace Keyword

def text : Keyword → String
  | .importWord => "import"
  | .exportWord => "export"
  | .letWord => "let"
  | .constWord => "const"
  | .varWord => "var"
  | .functionWord => "function"
  | .returnWord => "return"
  | .ifWord => "if"
  | .elseWord => "else"
  | .whileWord => "while"
  | .forWord => "for"
  | .newWord => "new"
  | .trueWord => "true"
  | .falseWord => "false"
  | .nullWord => "null"
  | .typeofWord => "typeof"

def all : List Keyword :=
  [.importWord, .exportWord, .letWord, .constWord, .varWord, .functionWord, .returnWord, .ifWord,
    .elseWord, .whileWord, .forWord, .newWord, .trueWord, .falseWord, .nullWord, .typeofWord]

/-- The keyword with a given spelling. -/
def ofText? (s : String) : Option Keyword := all.find? (·.text == s)

theorem ofText?_text (k : Keyword) : ofText? k.text = some k := by
  cases k <;> decide

end Keyword

inductive Symbol where
  | plus
  | minus
  | star
  | starStar
  | slash
  | percent
  | ampersand
  | pipe
  | caret
  | tilde
  | bang
  | equal
  | less
  | greater
  | question
  | questionQuestion
  | colon
  | plusPlus
  | minusMinus
  | leftShift
  | rightShift
  | lessEqual
  | greaterEqual
  | equalEqual
  | equalEqualEqual
  | bangEqual
  | bangEqualEqual
  | ampersandAmpersand
  | pipePipe
  | plusEqual
  | minusEqual
  | starEqual
  | slashEqual
  | percentEqual
  | leftParen
  | rightParen
  | leftBrace
  | rightBrace
  | leftBracket
  | rightBracket
  | semicolon
  | comma
  | dot
  deriving DecidableEq, Repr

namespace Symbol

/-- The characters of a symbol. -/
def chars : Symbol → List Char
  | .plus => ['+']
  | .minus => ['-']
  | .star => ['*']
  | .starStar => ['*', '*']
  | .slash => ['/']
  | .percent => ['%']
  | .ampersand => ['&']
  | .pipe => ['|']
  | .caret => ['^']
  | .tilde => ['~']
  | .bang => ['!']
  | .equal => ['=']
  | .less => ['<']
  | .greater => ['>']
  | .question => ['?']
  | .questionQuestion => ['?', '?']
  | .colon => [':']
  | .plusPlus => ['+', '+']
  | .minusMinus => ['-', '-']
  | .leftShift => ['<', '<']
  | .rightShift => ['>', '>']
  | .lessEqual => ['<', '=']
  | .greaterEqual => ['>', '=']
  | .equalEqual => ['=', '=']
  | .equalEqualEqual => ['=', '=', '=']
  | .bangEqual => ['!', '=']
  | .bangEqualEqual => ['!', '=', '=']
  | .ampersandAmpersand => ['&', '&']
  | .pipePipe => ['|', '|']
  | .plusEqual => ['+', '=']
  | .minusEqual => ['-', '=']
  | .starEqual => ['*', '=']
  | .slashEqual => ['/', '=']
  | .percentEqual => ['%', '=']
  | .leftParen => ['(']
  | .rightParen => [')']
  | .leftBrace => ['{']
  | .rightBrace => ['}']
  | .leftBracket => ['[']
  | .rightBracket => [']']
  | .semicolon => [';']
  | .comma => [',']
  | .dot => ['.']

def text (s : Symbol) : String := String.ofList s.chars

/-- Every symbol, no symbol before a longer one. -/
def longestFirst : List Symbol :=
  [.equalEqualEqual, .bangEqualEqual,
    .starStar, .questionQuestion, .plusPlus, .minusMinus, .leftShift, .rightShift, .lessEqual,
    .greaterEqual, .equalEqual, .bangEqual, .ampersandAmpersand, .pipePipe, .plusEqual,
    .minusEqual, .starEqual, .slashEqual, .percentEqual,
    .plus, .minus, .star, .slash, .percent, .ampersand, .pipe, .caret, .tilde, .bang, .equal,
    .less, .greater, .question, .colon, .leftParen, .rightParen, .leftBrace, .rightBrace,
    .leftBracket, .rightBracket, .semicolon, .comma, .dot]

theorem mem_longestFirst (s : Symbol) : s ∈ longestFirst := by
  cases s <;> decide

/-- The longest symbol at the front of a text. -/
def munch? (cs : List Char) : Option Symbol :=
  longestFirst.find? fun s => s.chars.isPrefixOf cs

end Symbol

inductive TokenKind where
  /-- A numeric literal, exactly as written. -/
  | number (raw : String)
  /-- A string literal: `raw` stands between the quotes, `value` is what it means. -/
  | string (value : String) (quote : Quote) (raw : String)
  | identifier (name : String)
  | keyword (k : Keyword)
  | symbol (s : Symbol)
  | newline
  | lineComment (text : String)
  | blockComment (text : String)
  | endOfFile
  deriving DecidableEq, Repr

namespace TokenKind

/-- A text between two quotes. -/
def quoted (quote : Quote) (raw : String) : String :=
  String.singleton quote.mark ++ raw ++ String.singleton quote.mark

/-- The spelling of a token; line ends, comments and the end of file are named instead. -/
def text : TokenKind → String
  | .number raw => raw
  | .string _ quote raw => quoted quote raw
  | .identifier name => name
  | .keyword k => k.text
  | .symbol s => s.text
  | .newline => "newline"
  | .lineComment _ => "line comment"
  | .blockComment _ => "block comment"
  | .endOfFile => "end of file"

end TokenKind

structure Token where
  kind : TokenKind
  span : Span
  /-- Whether a line break separates this token from the one before it. -/
  afterBreak : Bool
  deriving DecidableEq, Repr

end DecimalLift
