import DecimalLift.Token.Quoted
import DecimalLift.Tree

/-!
# Laying out trees as text

A tree is laid out as a list of pieces: tokens, single blanks, line ends with their indentation,
and ascriptions kept as text. Joining the pieces gives the text (`Printer`); the tokens among them
give what a reader of the text meets.

* `LayoutOptions` (`PrintOptions`) — whether ascriptions are written, and how wide an indentation
  is.
* `Expression.pieces` (`expression`, `expression_unwrapped`) — parentheses stand where precedence
  asks for them and nowhere else.
* `Statement.pieces` (`print_statement`, `statement_inline`, `body`, `block`) — one statement a
  line, four blanks deeper in each block by default, and every semicolon written.
* `Expression.render` (`print_expression`), `Program.render` (`print_program`) — the text.
-/

set_option autoImplicit false

namespace DecimalLift

inductive Piece where
  | token (kind : TokenKind)
  | space
  /-- A line end and the blanks that indent the next line. -/
  | line (blanks : Nat)
  /-- The text of an ascription. -/
  | ascription (text : String)
  deriving DecidableEq, Repr

namespace Piece

def chars : Piece → List Char
  | .token kind => kind.text.toList
  | .space => [' ']
  | .line blanks => '\n' :: List.replicate blanks ' '
  | .ascription text => text.toList

def symbol (s : Symbol) : Piece := .token (.symbol s)

def keyword (k : Keyword) : Piece := .token (.keyword k)

def name (s : String) : Piece := .token (.identifier s)

/-- A string in its own spelling, or with its value escaped if it has none. -/
def string (value : String) (quote : Quote) (raw : Option String) : Piece :=
  .token (.string value quote (raw.getD (Quoted.escape quote value)))

/-- A comma and a blank. -/
def comma : List Piece := [symbol .comma, .space]

/-- The items one after another, commas between them. -/
def separated : List (List Piece) → List Piece
  | [] => []
  | [item] => item
  | item :: rest => item ++ comma ++ separated rest

/-- The pieces between parentheses. -/
def parenthesized (ps : List Piece) : List Piece := symbol .leftParen :: ps ++ [symbol .rightParen]

/-- The pieces, between parentheses if `wrap` asks for them. -/
def parenthesizedIf (wrap : Bool) (ps : List Piece) : List Piece :=
  if wrap then parenthesized ps else ps

def render (ps : List Piece) : String := String.ofList (ps.flatMap chars)

end Piece

open Piece (symbol keyword comma separated parenthesized parenthesizedIf)

/-- How tightly the left and the right operand of an operator have to hold together. -/
def BinaryOp.operandLevels (op : BinaryOp) : Nat × Nat :=
  if op.isAssignment then (Precedence.member, Precedence.assignment)
  else if op.isRightAssociative then (Precedence.trailing, op.precedence)
  else if op = .nullish then (Precedence.bitOr, Precedence.bitOr)
  else (op.precedence, op.precedence + 1)

namespace Expression

/-- Whether an operator and its operand need a blank between them. -/
def needsSpace : UnaryOp → Expression → Bool
  | .typeOf, _ => true
  | .minus, .unary _ inner _ => inner == .minus || inner == .preDecrement
  | .plus, .unary _ inner _ => inner == .plus || inner == .preIncrement
  | _, _ => false

/-- Whether a chain of members and positions starts with a call. Behind `new`, such a call would
take over the arguments. -/
def startsWithCall : Expression → Bool
  | .call .. => true
  | .member _ object _ => startsWithCall object
  | .index _ object _ => startsWithCall object
  | _ => false

def isNumber : Expression → Bool
  | .number .. => true
  | _ => false

mutual

/-- An expression without parentheses around it. -/
def pieces : Expression → List Piece
  | .number _ raw => [.token (.number raw)]
  | .string _ value quote raw => [.string value quote raw]
  | .boolean _ value => [keyword (if value then .trueWord else .falseWord)]
  | .null _ => [keyword .nullWord]
  | .identifier _ name => [.name name]
  | .binary _ op left right =>
    parenthesizedIf (left.precedence < op.operandLevels.1) left.pieces
      ++ [.space, symbol op.symbol, .space]
      ++ parenthesizedIf (right.precedence < op.operandLevels.2) right.pieces
  | .unary _ op operand =>
    if op.isTrailing then
      parenthesizedIf (operand.precedence < Precedence.trailing) operand.pieces ++ [.token op.token]
    else
      .token op.token :: (if needsSpace op operand then [.space] else [])
        ++ parenthesizedIf (operand.precedence < Precedence.unary) operand.pieces
  | .call _ callee arguments =>
    parenthesizedIf (callee.precedence < Precedence.member) callee.pieces
      ++ parenthesized (separated (listPieces arguments))
  | .construct _ callee arguments =>
    [keyword .newWord, .space]
      ++ parenthesizedIf (callee.startsWithCall || callee.precedence < Precedence.member)
        callee.pieces
      ++ parenthesized (separated (listPieces arguments))
  | .member _ object property =>
    parenthesizedIf (object.isNumber || object.precedence < Precedence.member) object.pieces
      ++ [symbol .dot, .name property]
  | .index _ object position =>
    parenthesizedIf (object.precedence < Precedence.member) object.pieces
      ++ symbol .leftBracket :: position.pieces ++ [symbol .rightBracket]
  | .conditional _ condition yes no =>
    parenthesizedIf (condition.precedence < Precedence.nullish) condition.pieces
      ++ [.space, symbol .question, .space]
      ++ parenthesizedIf (yes.precedence < Precedence.assignment) yes.pieces
      ++ [.space, symbol .colon, .space]
      ++ parenthesizedIf (no.precedence < Precedence.assignment) no.pieces
  | .array _ elements =>
    symbol .leftBracket :: separated (listPieces elements) ++ [symbol .rightBracket]

/-- Each of several expressions, as it stands between commas. -/
def listPieces : List Expression → List (List Piece)
  | [] => []
  | e :: es => parenthesizedIf (e.precedence < Precedence.assignment) e.pieces :: listPieces es

end

/-- The text of an expression. -/
def render (e : Expression) : String := Piece.render e.pieces

end Expression

structure LayoutOptions where
  ascriptions : Bool
  indentWidth : UInt64
  deriving DecidableEq, Repr

namespace LayoutOptions

def typed : LayoutOptions := ⟨true, 4⟩

/-- Plain text without ascriptions. -/
def untyped : LayoutOptions := ⟨false, 4⟩

/-- An ascription with its colon, if there is one and it is wanted. -/
def ascriptionPieces (o : LayoutOptions) : Option String → List Piece
  | some text => if o.ascriptions then [symbol .colon, .space, .ascription text] else []
  | none => []

/-- A line end, and the indentation at a depth. The product is one of words. -/
def line (o : LayoutOptions) (depth : Nat) : Piece :=
  .line (depth * o.indentWidth : UInt64).toNat

end LayoutOptions

def ImportSpecifier.pieces (s : ImportSpecifier) : List Piece :=
  if s.imported = s.bound then [.name s.bound]
  else [.name s.imported, .space, .name "as", .space, .name s.bound]

namespace ImportDeclaration

/-- The default binding, the namespace and the braces, as far as they are there. -/
def clauses (d : ImportDeclaration) : List (List Piece) :=
  (d.defaultBinding.map fun name => [Piece.name name]).toList
    ++ (d.namespaceBinding.map fun name =>
      [symbol .star, Piece.space, Piece.name "as", Piece.space, Piece.name name]).toList
    ++ (if d.named.isEmpty then []
      else [[symbol .leftBrace, .space] ++ separated (d.named.map ImportSpecifier.pieces)
        ++ [.space, symbol .rightBrace]])

def pieces (d : ImportDeclaration) : List Piece :=
  [keyword .importWord, .space]
    ++ (if d.clauses.isEmpty then []
      else separated d.clauses ++ [.space, .name "from", .space])
    ++ [.string d.moduleName d.quote d.rawName, symbol .semicolon]

end ImportDeclaration

def Declarator.pieces (o : LayoutOptions) (d : Declarator) : List Piece :=
  .name d.name :: o.ascriptionPieces d.ascription
    ++ match d.initial with
      | some e =>
        [.space, symbol .equal, .space]
          ++ parenthesizedIf (e.precedence < Precedence.assignment) e.pieces
      | none => []

def Parameter.pieces (o : LayoutOptions) (p : Parameter) : List Piece :=
  .name p.name :: o.ascriptionPieces p.ascription

namespace Statement

/-- A declaration without its semicolon. -/
def variablePieces (o : LayoutOptions) (word : DeclarationWord) (ds : List Declarator) :
    List Piece :=
  [keyword word.keyword, .space] ++ separated (ds.map (Declarator.pieces o))

def isBlock : Statement → Bool
  | .block .. => true
  | _ => false

def isBranch : Statement → Bool
  | .branch .. => true
  | _ => false

/-- The first part of the header of a `for` loop: a declaration or an expression. -/
def startPieces (o : LayoutOptions) : Option Statement → List Piece
  | some (.variable _ word ds) => variablePieces o word ds
  | some (.expression _ e) => e.pieces
  | _ => []

/-- An expression with a blank before it, if there is one. -/
def spacedPieces : Option Expression → List Piece
  | some e => .space :: e.pieces
  | none => []

/-- What stands before the body of a control statement: a block stays on the line. -/
def bodyLead (o : LayoutOptions) (depth : Nat) (body : Statement) : Piece :=
  if body.isBlock then .space else o.line (depth + 1)

/-- The depth of the body of a control statement. -/
def bodyDepth (depth : Nat) (body : Statement) : Nat := if body.isBlock then depth else depth + 1

mutual

/-- A statement whose first line is indented already; `depth` is its depth. -/
def pieces (o : LayoutOptions) (depth : Nat) : Statement → List Piece
  | .imports _ d => d.pieces
  | .variable _ word ds => variablePieces o word ds ++ [symbol .semicolon]
  | .function _ name parameters result body =>
    [keyword .functionWord, .space, .name name]
      ++ parenthesized (separated (parameters.map (Parameter.pieces o)))
      ++ o.ascriptionPieces result ++ [.space] ++ blockPieces o depth body
  | .exports _ inner => [keyword .exportWord, .space] ++ pieces o depth inner
  | .expression _ e => e.pieces ++ [symbol .semicolon]
  | .returns _ value => keyword .returnWord :: spacedPieces value ++ [symbol .semicolon]
  | .branch _ condition yes no =>
    [keyword .ifWord, .space] ++ parenthesized condition.pieces
      ++ bodyLead o depth yes :: pieces o (bodyDepth depth yes) yes
      ++ elsePieces o depth yes.isBlock no
  | .whileLoop _ condition body =>
    [keyword .whileWord, .space] ++ parenthesized condition.pieces
      ++ bodyLead o depth body :: pieces o (bodyDepth depth body) body
  | .forLoop _ start condition update body =>
    [keyword .forWord, .space]
      ++ parenthesized (startPieces o start ++ symbol .semicolon :: spacedPieces condition
        ++ symbol .semicolon :: spacedPieces update)
      ++ bodyLead o depth body :: pieces o (bodyDepth depth body) body
  | .block _ statements => blockPieces o depth statements
  | .empty _ => [symbol .semicolon]

/-- The `else` part behind a first branch that is a block or not; a further `if` stays on the
line. -/
def elsePieces (o : LayoutOptions) (depth : Nat) (afterBlock : Bool) :
    Option Statement → List Piece
  | none => []
  | some no =>
    [if afterBlock then .space else o.line depth, keyword .elseWord]
      ++ (if no.isBranch then .space :: pieces o depth no
        else bodyLead o depth no :: pieces o (bodyDepth depth no) no)

/-- Statements between braces; nothing stands between the braces of an empty block. -/
def blockPieces (o : LayoutOptions) (depth : Nat) : List Statement → List Piece
  | [] => [symbol .leftBrace, symbol .rightBrace]
  | s :: ss =>
    symbol .leftBrace :: linesPieces o (depth + 1) (s :: ss) ++ [o.line depth, symbol .rightBrace]

/-- Each statement on a line of its own. -/
def linesPieces (o : LayoutOptions) (depth : Nat) : List Statement → List Piece
  | [] => []
  | s :: ss => o.line depth :: pieces o depth s ++ linesPieces o depth ss

end

end Statement

namespace Program

def pieces (o : LayoutOptions) (p : Program) : List Piece :=
  p.statements.flatMap fun s => s.pieces o 0 ++ [.line 0]

/-- The text of a program. -/
def render (o : LayoutOptions) (p : Program) : String := Piece.render (p.pieces o)

end Program

end DecimalLift
