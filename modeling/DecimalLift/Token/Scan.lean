import DecimalLift.Text.Class

/-!
# Scanning the front of a text

* `LexFault` — why a text does not start with a token, with its wording (`lexer_error`).
* `Scan` — what a scanner took from the front of a text, and what came of it. A failed scan has
  taken characters too: scanning can go on behind them.
-/

set_option autoImplicit false

namespace DecimalLift

inductive LexFault where
  | unexpectedCharacter (c : Char)
  | unterminatedComment
  | unterminatedString
  | invalidHexEscape
  | invalidUnicodeEscape
  | invalidHexLiteral
  | missingExponent (raw : String)
  | invalidNumber (raw : String)
  deriving DecidableEq, Repr

def LexFault.message : LexFault → String
  | .unexpectedCharacter c => "Unexpected character: " ++ String.singleton c
  | .unterminatedComment => "Unterminated block comment"
  | .unterminatedString => "Unterminated string literal"
  | .invalidHexEscape => "Invalid hexadecimal escape sequence"
  | .invalidUnicodeEscape => "Invalid Unicode escape sequence"
  | .invalidHexLiteral => "Invalid hex literal"
  | .missingExponent raw => "Missing exponent in numeric literal: " ++ raw
  | .invalidNumber raw => "Invalid numeric literal: " ++ raw

/-- The characters taken, and the value read from them or the fault that stopped the scan. -/
structure Scan (α : Type) where
  taken : List Char
  outcome : Except LexFault α

namespace Scan

variable {α β : Type}

def done (taken : List Char) (value : α) : Scan α := ⟨taken, .ok value⟩

def stop (taken : List Char) (fault : LexFault) : Scan α := ⟨taken, .error fault⟩

def map (f : α → β) (s : Scan α) : Scan β := ⟨s.taken, s.outcome.map f⟩

/-- The same scan with `cs` taken before it. -/
def after (cs : List Char) (s : Scan α) : Scan α := ⟨cs ++ s.taken, s.outcome⟩

/-- The same scan of a text, with `cs` taken before it and standing for `value`. -/
def emit (cs value : List Char) (s : Scan (List Char)) : Scan (List Char) :=
  ⟨cs ++ s.taken, s.outcome.map (value ++ ·)⟩

end Scan

end DecimalLift
