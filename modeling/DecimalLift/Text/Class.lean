import DecimalLift.Text.Alphabetic
import DecimalLift.Text.Numeric

/-!
# Classes of characters

* `isAlphabetic`, `isAlphanumeric` — letters, and letters or numbers of any script.
* `isBlank` — the Unicode property `White_Space`.
* `isControl` — the general category `Cc`.
* `isNameStart`, `isNamePart`, `isName` (`is_identifier`) — the shape of an identifier.
* `hexValue?` — the value of an ASCII hexadecimal digit.
-/

set_option autoImplicit false

namespace DecimalLift.Text

/-- Whether some range of the table holds the code point. -/
def inRanges (ranges : List (Nat × Nat)) (n : Nat) : Bool :=
  ranges.any fun r => r.1 ≤ n && n ≤ r.2

def isAlphabetic (c : Char) : Bool :=
  if c.toNat < 0x80 then c.isAlpha else inRanges alphabeticRanges c.toNat

def isNumeric (c : Char) : Bool :=
  if c.toNat < 0x80 then c.isDigit else inRanges numericRanges c.toNat

def isAlphanumeric (c : Char) : Bool := isAlphabetic c || isNumeric c

/-- Tab to carriage return, space, and the wider blanks and separators. -/
def blankRanges : List (Nat × Nat) := [
    (0x9, 0xd), (0x20, 0x20), (0x85, 0x85), (0xa0, 0xa0), (0x1680, 0x1680), (0x2000, 0x200a),
    (0x2028, 0x2029), (0x202f, 0x202f), (0x205f, 0x205f), (0x3000, 0x3000)]

def isBlank (c : Char) : Bool := inRanges blankRanges c.toNat

def isControl (c : Char) : Bool := c.toNat < 0x20 || (0x7f ≤ c.toNat && c.toNat ≤ 0x9f)

/-- Characters that may start an identifier. -/
def isNameStart (c : Char) : Bool := isAlphabetic c || c == '_' || c == '$'

/-- Characters that may follow in an identifier. -/
def isNamePart (c : Char) : Bool := isAlphanumeric c || c == '_' || c == '$'

/-- Whether a text has the shape of an identifier. Keywords have it too. -/
def isName (s : String) : Bool :=
  match s.toList with
  | [] => false
  | c :: cs => isNameStart c && cs.all isNamePart

/-- The value of an ASCII hexadecimal digit, in either case. -/
def hexValue? (c : Char) : Option Nat :=
  if '0' ≤ c ∧ c ≤ '9' then some (c.toNat - '0'.toNat)
  else if 'a' ≤ c ∧ c ≤ 'f' then some (c.toNat - 'a'.toNat + 10)
  else if 'A' ≤ c ∧ c ≤ 'F' then some (c.toNat - 'A'.toNat + 10)
  else none

def isHexDigit (c : Char) : Bool := (hexValue? c).isSome

/-- The digit of value `n`, in lower case; values above fifteen have no digit and give `0`. -/
def hexDigit (n : Nat) : Char :=
  (['0', '1', '2', '3', '4', '5', '6', '7', '8', '9', 'a', 'b', 'c', 'd', 'e', 'f'][n]?).getD '0'

end DecimalLift.Text
