import DecimalLift.Token

/-!
# Operators

* `Precedence` — the levels of binding strength, from assignment up to single words.
* `BinaryOp`, `UnaryOp` — the operators of expressions, with their spelling as tokens.
* `BinaryOp.ofSymbol?` (`binary_operator`, `assignment_operator`) — which symbols are operators
  between two operands.
* `ArithmeticOp` — the four operators that a decimal type can take over.
-/

set_option autoImplicit false

namespace DecimalLift

namespace Precedence

def assignment : Nat := 1
def conditional : Nat := 2
def nullish : Nat := 3
def logicalOr : Nat := 4
def logicalAnd : Nat := 5
def bitOr : Nat := 6
def bitXor : Nat := 7
def bitAnd : Nat := 8
def equality : Nat := 9
def relational : Nat := 10
def shift : Nat := 11
def additive : Nat := 12
def multiplicative : Nat := 13
def exponent : Nat := 14
def unary : Nat := 15
def trailing : Nat := 16
def member : Nat := 17
def primary : Nat := 18

end Precedence

inductive BinaryOp where
  | add
  | sub
  | mul
  | div
  | mod
  | exp
  | bitAnd
  | bitOr
  | bitXor
  | shiftLeft
  | shiftRight
  | logicalAnd
  | logicalOr
  | nullish
  | equal
  | notEqual
  | strictEqual
  | strictNotEqual
  | less
  | greater
  | lessEqual
  | greaterEqual
  | assign
  | addAssign
  | subAssign
  | mulAssign
  | divAssign
  | modAssign
  deriving DecidableEq, Repr

namespace BinaryOp

def symbol : BinaryOp → Symbol
  | .add => .plus
  | .sub => .minus
  | .mul => .star
  | .div => .slash
  | .mod => .percent
  | .exp => .starStar
  | .bitAnd => .ampersand
  | .bitOr => .pipe
  | .bitXor => .caret
  | .shiftLeft => .leftShift
  | .shiftRight => .rightShift
  | .logicalAnd => .ampersandAmpersand
  | .logicalOr => .pipePipe
  | .nullish => .questionQuestion
  | .equal => .equalEqual
  | .notEqual => .bangEqual
  | .strictEqual => .equalEqualEqual
  | .strictNotEqual => .bangEqualEqual
  | .less => .less
  | .greater => .greater
  | .lessEqual => .lessEqual
  | .greaterEqual => .greaterEqual
  | .assign => .equal
  | .addAssign => .plusEqual
  | .subAssign => .minusEqual
  | .mulAssign => .starEqual
  | .divAssign => .slashEqual
  | .modAssign => .percentEqual

def precedence : BinaryOp → Nat
  | .assign | .addAssign | .subAssign | .mulAssign | .divAssign | .modAssign =>
    Precedence.assignment
  | .nullish => Precedence.nullish
  | .logicalOr => Precedence.logicalOr
  | .logicalAnd => Precedence.logicalAnd
  | .bitOr => Precedence.bitOr
  | .bitXor => Precedence.bitXor
  | .bitAnd => Precedence.bitAnd
  | .equal | .notEqual | .strictEqual | .strictNotEqual => Precedence.equality
  | .less | .greater | .lessEqual | .greaterEqual => Precedence.relational
  | .shiftLeft | .shiftRight => Precedence.shift
  | .add | .sub => Precedence.additive
  | .mul | .div | .mod => Precedence.multiplicative
  | .exp => Precedence.exponent

def isAssignment (op : BinaryOp) : Bool := op.precedence == Precedence.assignment

/-- Exponentiation and assignment group to the right, all else to the left. -/
def isRightAssociative (op : BinaryOp) : Bool := op == .exp || op.isAssignment

/-- Every operator. -/
def all : List BinaryOp :=
  [.add, .sub, .mul, .div, .mod, .exp, .bitAnd, .bitOr, .bitXor, .shiftLeft, .shiftRight,
    .logicalAnd, .logicalOr, .nullish, .equal, .notEqual, .strictEqual, .strictNotEqual, .less,
    .greater, .lessEqual, .greaterEqual, .assign, .addAssign, .subAssign, .mulAssign, .divAssign,
    .modAssign]

/-- The operator that a symbol stands for between two operands, assignments included. -/
def ofSymbol? (s : Symbol) : Option BinaryOp := all.find? (·.symbol == s)

theorem ofSymbol?_symbol (op : BinaryOp) : ofSymbol? op.symbol = some op := by
  cases op <;> decide

/-- The operator of a token that joins two operands without assigning. -/
def ofOperand? : TokenKind → Option BinaryOp
  | .symbol s => (ofSymbol? s).filter (!·.isAssignment)
  | _ => none

/-- The operator of a token that assigns. -/
def ofAssignment? : TokenKind → Option BinaryOp
  | .symbol s => (ofSymbol? s).filter (·.isAssignment)
  | _ => none

end BinaryOp

inductive UnaryOp where
  | plus
  | minus
  | logicalNot
  | bitNot
  | typeOf
  | preIncrement
  | preDecrement
  | postIncrement
  | postDecrement
  deriving DecidableEq, Repr

namespace UnaryOp

/-- Whether the operator stands behind its operand. -/
def isTrailing : UnaryOp → Bool
  | .postIncrement | .postDecrement => true
  | _ => false

/-- The token of an operator. -/
def token : UnaryOp → TokenKind
  | .plus => .symbol .plus
  | .minus => .symbol .minus
  | .logicalNot => .symbol .bang
  | .bitNot => .symbol .tilde
  | .typeOf => .keyword .typeofWord
  | .preIncrement | .postIncrement => .symbol .plusPlus
  | .preDecrement | .postDecrement => .symbol .minusMinus

/-- The operator of a token that stands before its operand. -/
def ofLeading? : TokenKind → Option UnaryOp
  | .symbol .minus => some .minus
  | .symbol .plus => some .plus
  | .symbol .bang => some .logicalNot
  | .symbol .tilde => some .bitNot
  | .keyword .typeofWord => some .typeOf
  | .symbol .plusPlus => some .preIncrement
  | .symbol .minusMinus => some .preDecrement
  | _ => none

/-- The operator of a token that stands behind its operand. -/
def ofTrailing? : TokenKind → Option UnaryOp
  | .symbol .plusPlus => some .postIncrement
  | .symbol .minusMinus => some .postDecrement
  | _ => none

/-- Every operator. -/
def all : List UnaryOp :=
  [.plus, .minus, .logicalNot, .bitNot, .typeOf, .preIncrement, .preDecrement, .postIncrement,
    .postDecrement]

end UnaryOp

/-- The operators with a counterpart among the methods of a decimal type. -/
inductive ArithmeticOp where
  | add
  | sub
  | mul
  | div
  deriving DecidableEq, Repr

namespace ArithmeticOp

def toBinaryOp : ArithmeticOp → BinaryOp
  | .add => .add
  | .sub => .sub
  | .mul => .mul
  | .div => .div

def text (op : ArithmeticOp) : String := op.toBinaryOp.symbol.text

def ofBinaryOp? : BinaryOp → Option ArithmeticOp
  | .add => some .add
  | .sub => some .sub
  | .mul => some .mul
  | .div => some .div
  | _ => none

/-- The operator with a given spelling. -/
def ofText? (s : String) : Option ArithmeticOp :=
  [ArithmeticOp.add, .sub, .mul, .div].find? (·.text == s)

end ArithmeticOp

end DecimalLift
