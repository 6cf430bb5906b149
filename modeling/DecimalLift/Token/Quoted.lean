import DecimalLift.Token
import DecimalLift.Token.Scan

/-!
# String literals

* `Quoted.scan` (`tokenize_string_literal`) — the string literal behind an opening quote, read one
  character at a time in a `Mode` that says where in an escape sequence the reader stands
  (`take_hex_digits`, `take_unicode_escape`).
* `Quoted.ofCodePoint` (`decode_code_point`) — the character of a code.
* `Quoted.pushDigit` — one more digit of a braced escape, whose code is kept in a saturating word.
* `Quoted.escape` (`string_literal`) — the text between the quotes that stands for a value.
-/

set_option autoImplicit false

namespace DecimalLift.Quoted

open DecimalLift.Text

/-- The character with a code point; the replacement character if there is none. -/
def ofCodePoint (n : Nat) : Char :=
  if n.isValidChar then Char.ofNat n else Char.ofNat 0xFFFD

/-- Where in the literal the reader stands. -/
inductive Mode where
  | plain
  /-- Behind a backslash. -/
  | escape
  /-- Inside an escape that still needs `left` hexadecimal digits. -/
  | hex (left code : Nat)
  /-- Behind `\u`. -/
  | unicode
  /-- Behind `\u`, an opening brace and as many digits as `digits` counts. Any number of digits may
  come: the count is a word that wraps around, `code` is one that saturates. -/
  | braced (digits : Int32) (code : UInt32)
  deriving DecidableEq, Repr

/-- Why a literal that ends in a given mode is not one. -/
def Mode.fault : Mode → LexFault
  | .plain => .unterminatedString
  | .escape => .unterminatedString
  | .hex _ _ => .invalidHexEscape
  | .unicode => .invalidHexEscape
  | .braced _ _ => .invalidUnicodeEscape

/-- The largest code point. -/
def lastCodePoint : Nat := 0x10FFFF

/-- The product of two words, or the largest word where that is too small for it. -/
def saturatingMul (a b : UInt32) : UInt32 := .ofNatClamp (a.toNat * b.toNat)

/-- The sum of two words, or the largest word where that is too small for it. -/
def saturatingAdd (a b : UInt32) : UInt32 := .ofNatClamp (a.toNat + b.toNat)

/-- The code of the digits so far with the digit `d` behind them. -/
def pushDigit (code : UInt32) (d : Nat) : UInt32 :=
  saturatingAdd (saturatingMul code 16) (.ofNat d)

/-- The characters that a one-letter escape stands for. A backslash before a line end stands for
nothing, before any other character for that character. -/
def simpleEscape (c : Char) : List Char :=
  if c = 'n' then ['\n']
  else if c = 't' then ['\t']
  else if c = 'r' then ['\r']
  else if c = 'b' then [Char.ofNat 0x8]
  else if c = 'v' then [Char.ofNat 0xB]
  else if c = 'f' then [Char.ofNat 0xC]
  else if c = '\n' ∨ c = Char.ofNat 0x2028 ∨ c = Char.ofNat 0x2029 ∨ c = '\r' then []
  else [c]

/-- Reads up to and including the closing quote `q`; the value is what the text stands for. -/
def body (q : Char) : Mode → List Char → Scan (List Char)
  | mode, [] => .stop [] mode.fault
  | .plain, c :: cs =>
    if c = q then .done [c] []
    else if c = '\\' then (body q .escape cs).after [c]
    else if c = '\n' ∨ c = '\r' then .stop [c] .unterminatedString
    else (body q .plain cs).emit [c] [c]
  | .escape, '\r' :: '\n' :: cs => (body q .plain cs).after ['\r', '\n']
  | .escape, c :: cs =>
    if c = 'x' then (body q (.hex 2 0) cs).after [c]
    else if c = 'u' then (body q .unicode cs).after [c]
    else if c = '0' ∧ ¬ (cs.head?.any Char.isDigit) then (body q .plain cs).emit [c] [Char.ofNat 0]
    else (body q .plain cs).emit [c] (simpleEscape c)
  | .hex left code, c :: cs =>
    match hexValue? c with
    | none => .stop [] .invalidHexEscape
    | some d =>
      if left ≤ 1 then (body q .plain cs).emit [c] [ofCodePoint (code * 16 + d)]
      else (body q (.hex (left - 1) (code * 16 + d)) cs).after [c]
  | .unicode, c :: cs =>
    if c = '{' then (body q (.braced 0 0) cs).after [c]
    else
      match hexValue? c with
      | none => .stop [] .invalidHexEscape
      | some d => (body q (.hex 3 d) cs).after [c]
  | .braced digits code, c :: cs =>
    match hexValue? c with
    | some d => (body q (.braced (digits + 1) (pushDigit code d)) cs).after [c]
    | none =>
      if c = '}' ∧ digits ≠ 0 ∧ code.toNat ≤ lastCodePoint then
        (body q .plain cs).emit [c] [ofCodePoint code.toNat]
      else .stop [] .invalidUnicodeEscape

/-- The string literal whose opening quote stands before `cs`. The spelling kept is all that was
taken except the closing quote. -/
def scan (quote : Quote) (cs : List Char) : Scan TokenKind :=
  let s := body quote.mark .plain cs
  (s.map fun value => .string (String.ofList value) quote (String.ofList s.taken.dropLast)).after
    [quote.mark]

/-- The two lower-case hexadecimal digits of a number below 256. -/
def hexByte (n : Nat) : List Char := [hexDigit (n / 16), hexDigit (n % 16)]

/-- How one character of a value is spelt inside quotes `q`. -/
def escapeChar (q c : Char) : List Char :=
  if c = '\\' then ['\\', '\\']
  else if c = '\n' then ['\\', 'n']
  else if c = '\r' then ['\\', 'r']
  else if c = '\t' then ['\\', 't']
  else if c = Char.ofNat 0x8 then ['\\', 'b']
  else if c = Char.ofNat 0xB then ['\\', 'v']
  else if c = Char.ofNat 0xC then ['\\', 'f']
  else if c = Char.ofNat 0x2028 ∨ c = Char.ofNat 0x2029 then
    '\\' :: 'u' :: (hexByte (c.toNat / 256) ++ hexByte (c.toNat % 256))
  else if isControl c then '\\' :: 'x' :: hexByte c.toNat
  else if c = q then ['\\', c]
  else [c]

/-- The spelling of a value inside quotes. -/
def escape (quote : Quote) (value : String) : String :=
  String.ofList (value.toList.flatMap (escapeChar quote.mark))

end DecimalLift.Quoted
