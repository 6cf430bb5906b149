import DecimalLift.Text.Class

/-!
# JSON texts

* `Json` — a JSON value. A string whose escapes leave half of a surrogate pair alone stands for
  no text; it is kept as such, since a value that nobody asks for may hold one.
* `Json.parse?` — strict reading: no comments, no last commas, no leading zeros, no raw control
  characters in strings, nothing behind the value.
* `Json.fields?` — the values of named fields, from an object or, by position, from an array.
-/

set_option autoImplicit false

namespace DecimalLift

inductive Json where
  | null
  | boolean (value : Bool)
  | number
  | string (text : Option String)
  | array (items : List Json)
  | object (members : List (Option String × Json))
  deriving Repr

namespace Json

open DecimalLift.Text

def isSpace (c : Char) : Bool := c == ' ' || c == '\t' || c == '\n' || c == '\r'

def skipSpace (cs : List Char) : List Char := cs.dropWhile isSpace

/-- What is left behind a given spelling, if the text starts with it. -/
def dropSpelling? (spelling cs : List Char) : Option (List Char) :=
  if spelling.isPrefixOf cs then some (cs.drop spelling.length) else none

/-! ## Strings -/

/-- The code of a one-letter escape. -/
def escapeCode? (c : Char) : Option Nat :=
  if c = '"' ∨ c = '\\' ∨ c = '/' then some c.toNat
  else if c = 'b' then some 0x8
  else if c = 'f' then some 0xC
  else if c = 'n' then some 0xA
  else if c = 'r' then some 0xD
  else if c = 't' then some 0x9
  else none

/-- The number written with four hexadecimal digits. -/
def fourDigits? (a b c d : Char) : Option Nat := do
  return (((← hexValue? a) * 16 + (← hexValue? b)) * 16 + (← hexValue? c)) * 16 + (← hexValue? d)

/-- The codes of a string up to its closing quote, and what is left behind it. -/
def stringCodes? : List Char → Option (List Nat × List Char)
  | [] => none
  | '"' :: rest => some ([], rest)
  | '\\' :: 'u' :: a :: b :: c :: d :: rest => do
    let code ← fourDigits? a b c d
    let (codes, left) ← stringCodes? rest
    return (code :: codes, left)
  | '\\' :: c :: rest => do
    let code ← escapeCode? c
    let (codes, left) ← stringCodes? rest
    return (code :: codes, left)
  | c :: rest => do
    if c.toNat < 0x20 ∨ c = '\\' then none
    else
      let (codes, left) ← stringCodes? rest
      return (c.toNat :: codes, left)

def isHighSurrogate (n : Nat) : Bool := 0xD800 ≤ n && n ≤ 0xDBFF

def isLowSurrogate (n : Nat) : Bool := 0xDC00 ≤ n && n ≤ 0xDFFF

/-- The text with given codes, where two halves of a surrogate pair stand for one character. -/
def ofCodes? : List Nat → Option (List Char)
  | [] => some []
  | [n] => if n.isValidChar then some [Char.ofNat n] else none
  | h :: l :: rest =>
    if isHighSurrogate h && isLowSurrogate l then
      (ofCodes? rest).map (Char.ofNat (0x10000 + (h - 0xD800) * 0x400 + (l - 0xDC00)) :: ·)
    else if h.isValidChar then (ofCodes? (l :: rest)).map (Char.ofNat h :: ·)
    else none

/-- The string behind an opening quote. -/
def string? (cs : List Char) : Option (Option String × List Char) := do
  let (codes, left) ← stringCodes? cs
  return ((ofCodes? codes).map String.ofList, left)

/-! ## Numbers -/

/-- What is left behind one or more digits. -/
def digits? : List Char → Option (List Char)
  | c :: rest => if c.isDigit then some (rest.dropWhile Char.isDigit) else none
  | [] => none

/-- What is left behind a whole number without leading zeros. -/
def whole? : List Char → Option (List Char)
  | '0' :: c :: rest => if c.isDigit then none else some (c :: rest)
  | cs => digits? cs

/-- What is left behind an optional point with digits. -/
def fraction? : List Char → Option (List Char)
  | '.' :: rest => digits? rest
  | cs => some cs

/-- What is left behind an optional exponent. -/
def exponent? : List Char → Option (List Char)
  | c :: rest =>
    if c = 'e' ∨ c = 'E' then
      match rest with
      | '+' :: tail => digits? tail
      | '-' :: tail => digits? tail
      | _ => digits? rest
    else some (c :: rest)
  | [] => some []

/-- What is left behind a number. -/
def number? (cs : List Char) : Option (List Char) := do
  let unsigned := match cs with
    | '-' :: rest => rest
    | _ => cs
  exponent? (← fraction? (← whole? unsigned))

/-! ## Values -/

mutual

/-- The value at the front of a text that starts with no blank, and what is left behind it. -/
def value? : Nat → List Char → Option (Json × List Char)
  | 0, _ => none
  | _ + 1, [] => none
  | n + 1, c :: cs =>
    if c = '"' then do
      let (text, left) ← string? cs
      return (.string text, left)
    else if c = '[' then
      match skipSpace cs with
      | ']' :: left => some (.array [], left)
      | cs => do
        let (items, left) ← items? n cs
        return (.array items, left)
    else if c = '{' then
      match skipSpace cs with
      | '}' :: left => some (.object [], left)
      | cs => do
        let (members, left) ← members? n cs
        return (.object members, left)
    else if c = 'n' then (dropSpelling? ['u', 'l', 'l'] cs).map fun left => (.null, left)
    else if c = 't' then (dropSpelling? ['r', 'u', 'e'] cs).map fun left => (.boolean true, left)
    else if c = 'f' then
      (dropSpelling? ['a', 'l', 's', 'e'] cs).map fun left => (.boolean false, left)
    else (number? (c :: cs)).map fun left => (.number, left)

/-- One or more values between commas, up to the closing bracket. -/
def items? : Nat → List Char → Option (List Json × List Char)
  | 0, _ => none
  | n + 1, cs => do
    let (first, left) ← value? n cs
    match skipSpace left with
    | ']' :: left => return ([first], left)
    | ',' :: left =>
      let (rest, left) ← items? n (skipSpace left)
      return (first :: rest, left)
    | _ => none

/-- One or more named values between commas, up to the closing brace. -/
def members? : Nat → List Char → Option (List (Option String × Json) × List Char)
  | 0, _ => none
  | n + 1, cs => do
    let '"' :: inner := cs | none
    let (key, left) ← string? inner
    let ':' :: left := skipSpace left | none
    let (value, left) ← value? n (skipSpace left)
    match skipSpace left with
    | '}' :: left => return ([(key, value)], left)
    | ',' :: left =>
      let (rest, left) ← members? n (skipSpace left)
      return ((key, value) :: rest, left)
    | _ => none

end

/-- The value that a text consists of. Every step of a reader takes a character or ends. -/
def parse? (text : String) : Option Json := do
  let cs := skipSpace text.toList
  let (value, left) ← value? (2 * cs.length + 2) cs
  if (skipSpace left).isEmpty then some value else none

/-! ## Reading values of known shape -/

/-- The text of a string. -/
def text? : Json → Option String
  | .string text => text
  | _ => none

/-- The items of an array, each read by `f`. -/
def list? {α : Type} (f : Json → Option α) : Json → Option (List α)
  | .array items => items.mapM f
  | _ => none

/-- The values under a name, in order. -/
def valuesOf (name : String) (members : List (Option String × Json)) : List Json :=
  (members.filter fun m => m.1 == some name).map (·.2)

/-- The values of named fields, where they are given. In an object a name is given at most once,
and names that are not asked for are passed over; in an array the fields stand in order, and
the last ones may be missing. -/
def fields? (names : List String) : Json → Option (List (Option Json))
  | .object members =>
    if members.all (·.1.isSome) && names.all (fun n => (valuesOf n members).length ≤ 1) then
      some (names.map fun n => (valuesOf n members).head?)
    else none
  | .array items =>
    if items.length ≤ names.length then
      some (items.map some ++ List.replicate (names.length - items.length) none)
    else none
  | _ => none

/-- One of several named values: its name, or an object that maps its name to null. -/
def choice? : Json → Option String
  | .string text => text
  | .object [(name, .null)] => name
  | _ => none

end Json

end DecimalLift
