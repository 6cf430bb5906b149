import DecimalLift.Parse.State

/-!
# Type ascriptions

Ascriptions are carried along as text with normal spacing: qualified names, type arguments,
unions, array types and parentheses.

* `Parse.ascription` (`parse_type_annotation`, `parse_type_primary`) — the ascription at the front
  of the queue.
* `Parse.closeAngle` (`expect_closing_angle`) — the end of a list of type arguments; of a token
  `>>` it takes one half.
-/

set_option autoImplicit false

namespace DecimalLift.Parse

/-- The end of a list of type arguments. A token `>>` is cut: its first half is taken, and the
second stays in the queue one column further on. -/
def closeAngle : Parse Unit := fun s =>
  match s.tokens with
  | t :: ts =>
    if t.kind = .symbol .rightShift then
      let start := { t.span.start with column := t.span.start.column + 1 }
      .ok () { s with
        tokens :=
          { t with kind := .symbol .greater, span := { t.span with start := start } } :: ts }
    else expect (.symbol .greater) "type arguments" s
  | [] => expect (.symbol .greater) "type arguments" s

/-- The names behind the points of a qualified name. -/
def qualifiedTail : Nat → String → Parse String
  | 0, _ => outOfSteps
  | n + 1, text => do
    if ← accept (.symbol .dot) then
      let name ← expectIdentifier "qualified type name"
      qualifiedTail n (text ++ "." ++ name)
    else return text

/-- The brackets behind an array type. -/
def arrayTail : Nat → String → Parse String
  | 0, _ => outOfSteps
  | n + 1, text => do
    if ← accept (.symbol .leftBracket) then
      expect (.symbol .rightBracket) "array type"
      arrayTail n (text ++ "[]")
    else return text

mutual

/-- A union of one or more types. -/
def unionType : Nat → Parse String
  | 0 => outOfSteps
  | n + 1 => do
    let first ← singleType n
    unionTail n first

def unionTail : Nat → String → Parse String
  | 0, _ => outOfSteps
  | n + 1, text => do
    if ← accept (.symbol .pipe) then
      let next ← singleType n
      unionTail n (text ++ " | " ++ next)
    else return text

/-- A type without unions on the outside. -/
def singleType : Nat → Parse String
  | 0 => outOfSteps
  | n + 1 => do
    let location ← here
    let base ← match ← advanceKind? with
      | some (.identifier name) => do
        let name ← qualifiedTail n name
        if ← accept (.symbol .less) then
          let arguments ← typeArguments n
          closeAngle
          pure (name ++ "<" ++ arguments ++ ">")
        else pure name
      | some (.keyword .nullWord) => pure "null"
      | some (.string _ quote raw) => pure (TokenKind.quoted quote raw)
      | some (.number raw) => pure raw
      | some (.symbol .leftParen) => do
        let inner ← unionType n
        expect (.symbol .rightParen) "parenthesized type"
        pure ("(" ++ inner ++ ")")
      | some other => throw (.notType other location)
      | none => throw (.unexpectedEnd .ascription location)
    arrayTail n base

/-- One or more types between commas. -/
def typeArguments : Nat → Parse String
  | 0 => outOfSteps
  | n + 1 => do
    let first ← unionType n
    if ← accept (.symbol .comma) then
      let rest ← typeArguments n
      return first ++ ", " ++ rest
    else return first

end

/-- The ascription at the front of the queue. -/
def ascription : Parse String := withSteps unionType

/-- An ascription behind a colon, if there is a colon. -/
def ascription? : Parse (Option String) := do
  if ← accept (.symbol .colon) then return some (← ascription)
  else return none

end DecimalLift.Parse
