import DecimalLift.Token.Scan

/-!
# Numeric literals

A number is `0x` with hexadecimal digits, or a decimal with an optional fraction and an optional
exponent. Its spelling is its value: nothing is rounded.

* `Number.scan` (`tokenize_number`, `take_digits`) — the number at the front of a text that starts
  with a digit, or with a point and a digit.
-/

set_option autoImplicit false

namespace DecimalLift.Number

open DecimalLift.Text

/-- `0x` and the hexadecimal digits behind it; `x` may be a capital. -/
def scanHex (x : Char) (rest : List Char) : Scan String :=
  let digits := rest.takeWhile isHexDigit
  let raw := '0' :: x :: digits
  if digits.isEmpty then .stop raw .invalidHexLiteral else .done raw (String.ofList raw)

/-- Digits, perhaps a point, and digits. -/
def mantissa (cs : List Char) : List Char :=
  let whole := cs.takeWhile Char.isDigit
  match cs.dropWhile Char.isDigit with
  | '.' :: rest => whole ++ '.' :: rest.takeWhile Char.isDigit
  | _ => whole

/-- An exponent mark with its sign, and the digits behind them. -/
def exponent? : List Char → Option (List Char × List Char)
  | e :: rest =>
    if e = 'e' ∨ e = 'E' then
      match rest with
      | sign :: tail =>
        if sign = '+' ∨ sign = '-' then some ([e, sign], tail.takeWhile Char.isDigit)
        else some ([e], rest.takeWhile Char.isDigit)
      | [] => some ([e], [])
    else none
  | [] => none

/-- A number must not run into a letter or an underscore. -/
def finish (raw rest : List Char) : Scan String :=
  match rest with
  | c :: _ =>
    if isAlphabetic c || c == '_' then .stop raw (.invalidNumber (String.ofList raw))
    else .done raw (String.ofList raw)
  | [] => .done raw (String.ofList raw)

def scanDecimal (cs : List Char) : Scan String :=
  let m := mantissa cs
  match exponent? (cs.drop m.length) with
  | none => finish m (cs.drop m.length)
  | some (mark, digits) =>
    let raw := m ++ mark ++ digits
    if digits.isEmpty then .stop raw (.missingExponent (String.ofList raw))
    else finish raw (cs.drop raw.length)

/-- The number at the front of a text. -/
def scan (cs : List Char) : Scan String :=
  match cs with
  | '0' :: x :: rest => if x = 'x' ∨ x = 'X' then scanHex x rest else scanDecimal cs
  | _ => scanDecimal cs

end DecimalLift.Number
