import DecimalLift.Parse.State

/-!
# Expressions

Operators between operands are grouped by climbing their precedence (`parse_binary_expression`);
all other levels read one form and hand on to the next tighter one. The readers take a number of
steps, which bounds how deep they call one another; `Parse.expression` (`parse_expression`) and its
fellows supply enough.

A node gets its id when its last part has been read, so ids count the parts of a tree from the
inside out and from left to right.
-/

set_option autoImplicit false

namespace DecimalLift.Parse

mutual

/-- An assignment, or an expression of a tighter level. -/
def assignmentLevel : Nat → Parse Expression
  | 0 => outOfSteps
  | n + 1 => do
    let target ← conditionalLevel n
    match (← peekKind?).bind BinaryOp.ofAssignment? with
    | none => return target
    | some op =>
      if target.isAssignable then
        let _ ← advance?
        let value ← assignmentLevel n
        return .binary (← node (target.span.join value.span)) op target value
      else throw (.notAssignable target.kindName target.span.start)

/-- A choice between two values, or an expression of a tighter level. -/
def conditionalLevel : Nat → Parse Expression
  | 0 => outOfSteps
  | n + 1 => do
    let condition ← binaryLevel n Precedence.nullish
    if ← accept (.symbol .question) then
      let yes ← assignmentLevel n
      expect (.symbol .colon) "conditional expression"
      let no ← assignmentLevel n
      return .conditional (← node (condition.span.join no.span)) condition yes no
    else return condition

/-- Operands joined by operators that bind at least as tightly as `least`. -/
def binaryLevel : Nat → Nat → Parse Expression
  | 0, _ => outOfSteps
  | n + 1, least => do
    let left ← unaryLevel n
    climb n least left

/-- Goes on behind the operand `left`. -/
def climb : Nat → Nat → Expression → Parse Expression
  | 0, _, _ => outOfSteps
  | n + 1, least, left => do
    match (← peekKind?).bind BinaryOp.ofOperand? with
    | none => return left
    | some op =>
      if op.precedence < least then return left
      else
        let _ ← advance?
        let right ← binaryLevel n
          (if op.isRightAssociative then op.precedence else op.precedence + 1)
        let joined := Expression.binary (← node (left.span.join right.span)) op left right
        climb n least joined

/-- An operator before its operand, or an expression of a tighter level. -/
def unaryLevel : Nat → Parse Expression
  | 0 => outOfSteps
  | n + 1 => do
    match (← peekKind?).bind UnaryOp.ofLeading? with
    | none => trailingLevel n
    | some op =>
      let start ← here
      let _ ← advance?
      let operand ← unaryLevel n
      return .unary (← nodeFrom start) op operand

/-- An operator behind its operand and on the same line, or an expression of a tighter level. -/
def trailingLevel : Nat → Parse Expression
  | 0 => outOfSteps
  | n + 1 => do
    let operand ← callLevel n
    match (← peek?).bind fun t => if t.afterBreak then none else UnaryOp.ofTrailing? t.kind with
    | none => return operand
    | some op =>
      let _ ← advance?
      return .unary (← nodeFrom operand.span.start) op operand

/-- A single expression with members, positions and arguments behind it. -/
def callLevel : Nat → Parse Expression
  | 0 => outOfSteps
  | n + 1 => do
    let head ← if ← at? (.keyword .newWord) then construction n else primaryLevel n
    suffixes n true head

/-- `new` with a constructor; the first list of arguments behind it belongs to `new`. -/
def construction : Nat → Parse Expression
  | 0 => outOfSteps
  | n + 1 => do
    let start ← here
    expect (.keyword .newWord) "new expression"
    let head ← if ← at? (.keyword .newWord) then construction n else primaryLevel n
    let callee ← suffixes n false head
    if ← accept (.symbol .leftParen) then
      let arguments ← elements n .rightParen "new expression"
      return .construct (← nodeFrom start) callee arguments
    else return .construct (← nodeFrom start) callee []

/-- What follows `head`: members and positions, and arguments where `calls` allows them. -/
def suffixes : Nat → Bool → Expression → Parse Expression
  | 0, _, _ => outOfSteps
  | n + 1, calls, head => do
    match ← peekKind? with
    | some (.symbol .dot) =>
      let _ ← advance?
      let property ← expectIdentifier "property access"
      let longer := Expression.member (← nodeFrom head.span.start) head property
      suffixes n calls longer
    | some (.symbol .leftBracket) =>
      let _ ← advance?
      let position ← assignmentLevel n
      expect (.symbol .rightBracket) "element access"
      let longer := Expression.index (← nodeFrom head.span.start) head position
      suffixes n calls longer
    | some (.symbol .leftParen) =>
      if calls then
        let _ ← advance?
        let arguments ← elements n .rightParen "function call"
        let longer := Expression.call (← nodeFrom head.span.start) head arguments
        suffixes n calls longer
      else return head
    | _ => return head

/-- Expressions between commas, up to and including the symbol `close`. A last comma is allowed. -/
def elements : Nat → Symbol → String → Parse (List Expression)
  | 0, _, _ => outOfSteps
  | n + 1, close, context => do
    if ← at? (.symbol close) then
      expect (.symbol close) context
      return []
    else
      let first ← assignmentLevel n
      if ← accept (.symbol .comma) then
        let rest ← elements n close context
        return first :: rest
      else
        expect (.symbol close) context
        return [first]

/-- A literal, a name, an array, or an expression in parentheses. -/
def primaryLevel : Nat → Parse Expression
  | 0 => outOfSteps
  | n + 1 => do
    let start ← here
    match ← advance? with
    | none => throw (.unexpectedEnd .expression start)
    | some t =>
      match t.kind with
      | .number raw => return .number (← nodeFrom start) raw
      | .string value quote raw => return .string (← nodeFrom start) value quote (some raw)
      | .keyword .trueWord => return .boolean (← nodeFrom start) true
      | .keyword .falseWord => return .boolean (← nodeFrom start) false
      | .keyword .nullWord => return .null (← nodeFrom start)
      | .identifier name => return .identifier (← nodeFrom start) name
      | .symbol .leftParen =>
        let inner ← assignmentLevel n
        expect (.symbol .rightParen) "parenthesized expression"
        return inner
      | .symbol .leftBracket =>
        let inner ← elements n .rightBracket "array literal"
        return .array (← nodeFrom start) inner
      | .endOfFile => throw (.unexpectedEnd .expression start)
      | _ => throw (.unexpectedToken .expression t)

end

/-- The expression at the front of the queue. -/
def expression : Parse Expression := withSteps assignmentLevel

/-- A choice between two values, or an expression of a tighter level. -/
def conditional : Parse Expression := withSteps conditionalLevel

/-- Operands joined by operators that bind at least as tightly as `least`. -/
def binary (least : Nat) : Parse Expression := withSteps fun n => binaryLevel n least

/-- An operator before its operand, or an expression of a tighter level. -/
def unary : Parse Expression := withSteps unaryLevel

/-- An operator behind its operand, or an expression of a tighter level. -/
def trailing : Parse Expression := withSteps trailingLevel

/-- A single expression with members, positions and arguments behind it. -/
def callee : Parse Expression := withSteps callLevel

/-- A literal, a name, an array, or an expression in parentheses. -/
def primary : Parse Expression := withSteps primaryLevel

end DecimalLift.Parse
